import Mathlib.Data.List.TakeWhile

namespace Lib.CBuffer

variable {b s : List Char} {n : Nat}

/-- The string in a block of memory, if its terminator is in the block too. -/
def read (b : List Char) : Option (List Char) :=
  if '\x00' ∈ b then some (b.takeWhile (· ≠ '\x00')) else none

/-- `strcpy` into a block. A string that does not fit with its terminator would be
written past the end. -/
def strcpy (b s : List Char) : Option (List Char) :=
  if s.length + 1 ≤ b.length then some (s ++ '\x00' :: b.drop (s.length + 1)) else none

/-- A block after a write at an offset. What goes past its end is not in it. -/
def overlay (b : List Char) (off : Nat) (s : List Char) : List Char :=
  (b.take off ++ s ++ b.drop (off + s.length)).take b.length

/-- `memcpy` into a block at an offset, within its bounds. -/
def memcpy (b : List Char) (off : Nat) (s : List Char) : Option (List Char) :=
  if off + s.length ≤ b.length then some (overlay b off s) else none

/-- What `fgets ()` takes of a stream when its buffer has room for `n` characters and the
terminator, and what it leaves. -/
def fgets : Nat → List Char → List Char × List Char
  | 0, s => ([], s)
  | _, [] => ([], [])
  | n + 1, c :: s => if c = '\n' then ([c], s) else (c :: (fgets n s).1, (fgets n s).2)

/-- A block of another size with what it has room for of the old one. -/
def resize (junk : Char) (n : Nat) (b : List Char) : List Char :=
  b.take n ++ List.replicate (n - b.length) junk

@[simp] theorem length_resize (junk : Char) (n : Nat) (b : List Char) : (resize junk n b).length = n := by
  simp only [resize, List.length_append, List.length_take, List.length_replicate]
  omega

@[simp] theorem length_overlay (b : List Char) (off : Nat) (s : List Char) :
    (overlay b off s).length = b.length := by
  simp only [overlay, List.length_take, List.length_append, List.length_drop]
  omega

/-- What is written over a part of the same length stands in its place. -/
theorem overlay_part {m : List Char} (h : s.length = m.length) (a c : List Char) :
    overlay (a ++ m ++ c) a.length s = a ++ s ++ c := by
  unfold overlay
  rw [List.append_assoc, List.take_left, h, ← List.drop_drop, List.drop_left, List.drop_left,
    List.take_of_length_le]
  simp only [List.length_append]
  omega

/-- Two texts written so that they meet at position `k` of a block of one character. -/
theorem overlay_meet {t : List Char} {k : Nat} (c : Char) (hs : s.length ≤ k) (ht : k + t.length ≤ n) :
    overlay (overlay (List.replicate n c) (k - s.length) s) k t =
      List.replicate (k - s.length) c ++ s ++ t ++ List.replicate (n - k - t.length) c := by
  have hfirst := overlay_part (s := s) (m := List.replicate s.length c) (by simp)
    (List.replicate (k - s.length) c) (List.replicate (n - k) c)
  have hsecond := overlay_part (s := t) (m := List.replicate t.length c) (by simp)
    (List.replicate (k - s.length) c ++ s) (List.replicate (n - k - t.length) c)
  have hk : (List.replicate (k - s.length) c ++ s).length = k := by
    rw [List.length_append, List.length_replicate]
    omega
  rw [List.replicate_append_replicate, List.replicate_append_replicate, List.length_replicate,
    show k - s.length + s.length + (n - k) = n by omega] at hfirst
  rw [hk, List.append_assoc _ (List.replicate t.length c), List.replicate_append_replicate,
    show t.length + (n - k - t.length) = n - k by omega] at hsecond
  rw [hfirst, hsecond]

/-- A string that fits is copied by writing it with its terminator. -/
theorem strcpy_overlay (h : s.length + 1 ≤ b.length) : strcpy b s = some (overlay b 0 (s ++ ['\x00'])) := by
  have hlen : (s ++ ['\x00']).length = (b.take (s.length + 1)).length := by
    rw [List.length_append, List.length_take, Nat.min_eq_left h, List.length_singleton]
  have hpart := overlay_part hlen [] (b.drop (s.length + 1))
  rw [List.nil_append, List.take_append_drop, List.length_nil] at hpart
  rw [strcpy, if_pos h, hpart]
  simp

/-- A write behind the part that is to stay. -/
theorem memcpy_behind (a t s : List Char) :
    memcpy (a ++ t) a.length s = if s.length ≤ t.length then some (a ++ s ++ t.drop s.length) else none := by
  unfold memcpy
  rw [List.length_append]
  by_cases h : s.length ≤ t.length
  · have hlen : s.length = (t.take s.length).length := by
      rw [List.length_take, Nat.min_eq_left h]
    have hpart := overlay_part hlen a (t.drop s.length)
    rw [List.append_assoc, List.take_append_drop] at hpart
    rw [if_pos (by omega), if_pos h, hpart]
  · rw [if_neg (by omega), if_neg h]

/-- A line is taken up to its end, or as far as there is room. -/
theorem fgets_line {l : List Char} (h : '\n' ∉ l) (n : Nat) (t : List Char) :
    fgets n (l ++ '\n' :: t) = ((l ++ ['\n']).take n, (l ++ ['\n']).drop n ++ t) := by
  induction l generalizing n with
  | nil =>
    cases n with
    | zero => rfl
    | succ n => simp [fgets]
  | cons c l ih =>
    cases n with
    | zero => simp [fgets]
    | succ n =>
      obtain ⟨hc, hl⟩ := not_or.mp (mt List.mem_cons.mpr h)
      rw [List.cons_append, fgets, if_neg (Ne.symm hc), ih hl]
      rfl

theorem length_strcpy (h : strcpy b s = some b') : b'.length = b.length := by
  unfold strcpy at h
  split at h
  · rename_i hfit
    obtain rfl := Option.some.inj h
    simp only [List.length_append, List.length_cons, List.length_drop]
    omega
  · cases h

theorem all_ne {c : Char} (hs : c ∉ s) : ∀ d ∈ s, decide (d ≠ c) = true := by
  intro d hd
  simp only [decide_eq_true_eq]
  rintro rfl
  exact hs hd

theorem read_terminated (hs : '\x00' ∉ s) (t : List Char) : read (s ++ '\x00' :: t) = some s := by
  rw [read, if_pos (by simp), List.takeWhile_append_of_pos (all_ne hs)]
  simp

theorem read_strcpy (hs : '\x00' ∉ s) (h : strcpy b s = some b') : read b' = some s := by
  unfold strcpy at h
  split at h
  · obtain rfl := Option.some.inj h
    exact read_terminated hs _
  · cases h

/-- A terminated string is shorter than its block. -/
theorem length_read (h : read b = some s) : s.length < b.length := by
  unfold read at h
  split at h
  · rename_i hmem
    obtain rfl := Option.some.inj h
    by_contra hge
    have hle := (List.takeWhile_prefix (l := b) (fun c => decide (c ≠ '\x00'))).length_le
    have hall : b.takeWhile (fun c => decide (c ≠ '\x00')) = b :=
      (List.takeWhile_prefix _).eq_of_length (by omega)
    have := List.mem_takeWhile_imp (hall.symm ▸ hmem)
    simp at this
  · cases h

end Lib.CBuffer
