import Mathlib.Algebra.Group.Nat.Defs
import Mathlib.Data.Rat.Defs
import Glb.Lib.CBuffer

namespace Lib.Printf
open CBuffer

section conversions

def padLeft (c : Char) (width : Nat) (s : List Char) : List Char := List.replicate (width - s.length) c ++ s

/-- `%d`, `%u` with a field width. -/
def decimal (width : Nat) (n : Int) : List Char :=
  padLeft ' ' width (if n < 0 then '-' :: Nat.toDigits 10 n.natAbs else Nat.toDigits 10 n.natAbs)

/-- The integer next to a fraction, the even one of two. -/
def roundEven (num den : Nat) : Nat :=
  let q := num / den
  let r := num % den
  if den < 2 * r ∨ (den = 2 * r ∧ q % 2 = 1) then q + 1 else q

/-- `%f` with a field width and a positive precision. -/
def fixed (width prec : Nat) (x : ℚ) : List Char :=
  let n := roundEven (x.num.natAbs * 10 ^ prec) x.den
  let digits := Nat.toDigits 10 (n / 10 ^ prec) ++ '.' :: padLeft '0' prec (Nat.toDigits 10 (n % 10 ^ prec))
  padLeft ' ' width (if x.num < 0 then '-' :: digits else digits)

end conversions

/-- A buffer that `snprintf ()` is called on at a running length, with the position and
the size that each call was given. -/
structure Report where
  buf : List Char
  len : Nat
  calls : List (Nat × Nat)
  deriving DecidableEq, Repr

/-- `cap - len` as the difference of two `size_t`. -/
def room (cap len : Nat) : Nat := if len ≤ cap then cap - len else 2 ^ 64 + cap - len

/-- `len += snprintf (buf + len, cap - len, ...)`. -/
def append (cap : Nat) (r : Report) (text : List Char) : Report where
  buf :=
    if room cap r.len = 0 then r.buf
    else overlay r.buf r.len (text.take (room cap r.len - 1) ++ ['\x00'])
  len := r.len + text.length
  calls := r.calls ++ [(r.len, room cap r.len)]

/-- Piece after piece is appended. A length equal to the capacity ends it, with a
terminator in the last place. -/
def appendAll (cap : Nat) : List (List Char) → Report → Report × Nat
  | [], r => (r, r.len)
  | text :: texts, r =>
    let r := append cap r text
    if r.len = cap then ({ r with buf := overlay r.buf (r.len - 1) ['\x00'] }, r.len - 1)
    else appendAll cap texts r

/-- Every call was given a position in the buffer and no more than the space behind it,
and the length returned is below the capacity. -/
structure Inside (cap : Nat) (p : Report × Nat) : Prop where
  calls : ∀ c ∈ p.1.calls, c.1 < cap ∧ c.2 ≤ cap - c.1
  ret : p.2 < cap

instance (cap : Nat) (p : Report × Nat) : Decidable (Inside cap p) :=
  decidable_of_iff ((∀ c ∈ p.1.calls, c.1 < cap ∧ c.2 ≤ cap - c.1) ∧ p.2 < cap)
    ⟨fun h => ⟨h.1, h.2⟩, fun h => ⟨h.calls, h.ret⟩⟩

/-- All pieces together are shorter than the capacity, or some of them fill it to the
character. -/
def Fits (cap len : Nat) (texts : List (List Char)) : Prop :=
  len + texts.flatten.length < cap ∨ ∃ k, len + (texts.take k).flatten.length = cap

variable {cap len n : Nat} {r : Report} {text : List Char} {texts : List (List Char)}

theorem append_all_calls {c : Nat × Nat} (hc : c ∈ r.calls) (texts : List (List Char)) :
    c ∈ (appendAll cap texts r).1.calls := by
  induction texts generalizing r with
  | nil => exact hc
  | cons text texts ih =>
    have hmem : c ∈ (append cap r text).calls := List.mem_append_left _ hc
    rw [appendAll]
    split
    · exact hmem
    · exact ih hmem

/-- A length that has jumped over the capacity never comes back. -/
theorem not_inside_past (hlen : cap < r.len) (texts : List (List Char)) :
    ¬ Inside cap (appendAll cap texts r) := by
  intro h
  cases texts with
  | nil =>
    have hret : r.len < cap := h.ret
    omega
  | cons text texts =>
    have hmem : (r.len, room cap r.len) ∈ (append cap r text).calls := List.mem_append_right _ (by simp)
    rw [appendAll, if_neg (by change ¬ r.len + text.length = cap; omega)] at h
    have := (h.calls _ (append_all_calls hmem texts)).1
    omega

theorem fits_cons (hlen : len < cap) :
    Fits cap len (text :: texts) ↔ len + text.length = cap ∨ Fits cap (len + text.length) texts := by
  constructor
  · rintro (h | ⟨k, hk⟩)
    · rw [List.flatten_cons, List.length_append] at h
      exact .inr (.inl (by omega))
    · cases k with
      | zero =>
        simp only [List.take_zero, List.flatten_nil, List.length_nil] at hk
        omega
      | succ k =>
        rw [List.take_succ_cons, List.flatten_cons, List.length_append] at hk
        exact .inr (.inr ⟨k, by omega⟩)
  · rintro (h | h | ⟨k, hk⟩)
    · exact .inr ⟨1, by simpa using h⟩
    · left
      rw [List.flatten_cons, List.length_append]
      omega
    · refine .inr ⟨k + 1, ?_⟩
      rw [List.take_succ_cons, List.flatten_cons, List.length_append]
      omega

theorem append_all_inside_iff (hlen : r.len < cap) (hcalls : ∀ c ∈ r.calls, c.1 < cap ∧ c.2 ≤ cap - c.1)
    (texts : List (List Char)) : Inside cap (appendAll cap texts r) ↔ Fits cap r.len texts := by
  induction texts generalizing r with
  | nil => exact iff_of_true ⟨hcalls, hlen⟩ (.inl (by simpa using hlen))
  | cons text texts ih =>
    have hcalls' : ∀ c ∈ (append cap r text).calls, c.1 < cap ∧ c.2 ≤ cap - c.1 := by
      intro c hc
      rcases List.mem_append.mp hc with hc | hc
      · exact hcalls c hc
      · obtain rfl := List.mem_singleton.mp hc
        refine ⟨hlen, ?_⟩
        rw [room, if_pos (by omega)]
    have hnext : (append cap r text).len = r.len + text.length := rfl
    rw [appendAll, fits_cons hlen]
    by_cases hfull : (append cap r text).len = cap
    · rw [if_pos hfull]
      refine iff_of_true ⟨hcalls', ?_⟩ (.inl (by omega))
      change (append cap r text).len - 1 < cap
      omega
    · rw [if_neg hfull]
      by_cases hlt : (append cap r text).len < cap
      · rw [ih hlt hcalls', hnext]
        exact ⟨.inr, fun h => h.resolve_left (by omega)⟩
      · refine iff_of_false (not_inside_past (by omega) texts) ?_
        rintro (h | h | ⟨k, hk⟩)
        · omega
        · omega
        · omega

/-- Lines of one width go past the end unless they come to it. -/
theorem not_fits_uniform {head foot : List Char} {lines : List (List Char)} {width : Nat} (hcap : 0 < cap)
    (hwidth : ∀ line ∈ lines, line.length = width) (hlong : cap < head.length + lines.length * width)
    (hmiss : ∀ k, head.length + k * width ≠ cap) : ¬ Fits cap 0 (head :: lines ++ [foot]) := by
  have hlen : ∀ part : List (List Char), (∀ line ∈ part, line.length = width) →
      part.flatten.length = part.length * width := by
    intro part hpart
    induction part with
    | nil => simp
    | cons line part ih =>
      rw [List.flatten_cons, List.length_append, hpart line List.mem_cons_self,
        ih (fun l hl => hpart l (List.mem_cons_of_mem _ hl)), List.length_cons, Nat.succ_mul, Nat.add_comm]
  have hall := hlen lines hwidth
  rintro (h | ⟨k, hk⟩)
  · simp only [List.cons_append, List.flatten_cons, List.flatten_append, List.length_append] at h
    omega
  · cases k with
    | zero =>
      simp only [List.take_zero, List.flatten_nil, List.length_nil] at hk
      omega
    | succ k =>
      rw [List.cons_append, List.take_succ_cons, List.flatten_cons, List.length_append, List.take_append,
        List.flatten_append, List.length_append] at hk
      by_cases hkn : k ≤ lines.length
      · have htake := hlen (lines.take k) (fun l hl => hwidth l (List.mem_of_mem_take hl))
        rw [List.length_take, Nat.min_eq_left hkn] at htake
        rw [Nat.sub_eq_zero_of_le hkn, List.take_zero, List.flatten_nil, List.length_nil, htake] at hk
        exact hmiss k (by omega)
      · rw [List.take_of_length_le (by omega), hall] at hk
        omega

end Lib.Printf
