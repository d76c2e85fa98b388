import Glb.Control

namespace Glb.Proofs.CtrlRequest
open Lib.CBuffer

/-- What is asked of the loop: no call writes behind the block, the first call that is
not interrupted is the last, and what `strlen ()` is given is terminated. -/
structure Contained (errno : Int) (outs : List ReadOut) : Prop where
  inside : ∀ off bytes, (off, ReadOut.data bytes) ∈ (readLoop outs (Reading.start errno)).1.calls →
    off + bytes.length ≤ bufsiz
  stops : ∀ pre x post, (readLoop outs (Reading.start errno)).1.calls = pre ++ x :: post →
    x.2 ≠ .fail EINTR → post = [] ∧ (readLoop outs (Reading.start errno)).2 = true
  ends : (readLoop outs (Reading.start errno)).2 = true →
    (readLoop outs (Reading.start errno)).1.gone = false →
      '\x00' ∈ (readLoop outs (Reading.start errno)).1.req

/-- The first answer that is not an interruption is an error, or it is the answer to the
first call, made with another `errno` in place, and brings no full block of text. -/
def Clean (errno : Int) (outs : List ReadOut) : Prop :=
  match outs.dropWhile (· = .fail EINTR) with
  | .data bytes :: _ =>
    errno ≠ EINTR ∧ outs.head? = some (.data bytes) ∧ (bytes.length < bufsiz ∨ '\x00' ∈ bytes)
  | _ => True

variable {s : Reading} {errno : Int} {outs rest : List ReadOut} {bytes : List Char} {n : Nat}

/-- The variables after `n` interruptions. -/
def interrupted : Nat → Reading → Reading
  | 0, s => s
  | n + 1, s => interrupted n (readCall s (.fail EINTR))

theorem loop_interrupted (n : Nat) (rest : List ReadOut) (s : Reading) :
    readLoop (List.replicate n (.fail EINTR) ++ rest) s = readLoop rest (interrupted n s) := by
  induction n generalizing s with
  | zero => rfl
  | succ n ih =>
    have heintr : (readCall s (.fail EINTR)).errno = EINTR := rfl
    rw [List.replicate_succ, List.cons_append, readLoop, if_pos heintr]
    exact ih _

/-- Interruptions change nothing but `errno`. -/
theorem interrupted_spec (n : Nat) (s : Reading) :
    (interrupted n s).req = s.req ∧ (interrupted n s).reqSize = s.reqSize ∧
      (interrupted n s).calls = s.calls ++ List.replicate n (s.reqSize, .fail EINTR) ∧
      (interrupted n s).errno = if n = 0 then s.errno else EINTR := by
  induction n generalizing s with
  | zero => exact ⟨rfl, rfl, (List.append_nil _).symm, rfl⟩
  | succ n ih =>
    obtain ⟨hreq, hsize, hcalls, herrno⟩ := ih (readCall s (.fail EINTR))
    refine ⟨hreq, hsize, ?_, ?_⟩
    · rw [interrupted, hcalls, List.replicate_succ]
      exact List.append_assoc _ _ _
    · rw [interrupted, herrno, if_neg (Nat.succ_ne_zero n)]
      split <;> rfl

theorem loop_calls (outs : List ReadOut) (s : Reading) :
    ∃ more, (readLoop outs s).1.calls = s.calls ++ more ∧ (more = [] → (readLoop outs s).2 = false) := by
  induction outs generalizing s with
  | nil => exact ⟨[], (List.append_nil _).symm, fun _ => rfl⟩
  | cons out outs ih =>
    have hone : (readCall s out).calls = s.calls ++ [(s.reqSize, out)] := by
      cases out <;> rfl
    rw [readLoop]
    split
    · obtain ⟨more, hmore, _⟩ := ih (readCall s out)
      exact ⟨(s.reqSize, out) :: more, by rw [hmore, hone, List.append_assoc]; rfl, fun h => by cases h⟩
    · exact ⟨[(s.reqSize, out)], hone, fun h => by cases h⟩

/-- The answers fall into interruptions and a rest that does not begin with one. -/
theorem split_interruptions (outs : List ReadOut) :
    ∃ n, outs = List.replicate n (.fail EINTR) ++ outs.dropWhile (· = .fail EINTR) := by
  refine ⟨(outs.takeWhile (· = .fail EINTR)).length, ?_⟩
  have hall : outs.takeWhile (· = .fail EINTR) =
      List.replicate (outs.takeWhile (· = .fail EINTR)).length (.fail EINTR) :=
    List.eq_replicate_of_mem fun x hx => by simpa using List.mem_takeWhile_imp hx
  rw [← hall, List.takeWhile_append_dropWhile]

theorem overlay_start (h : bytes.length ≤ bufsiz) :
    overlay (List.replicate bufsiz '\x00') 0 bytes =
      bytes ++ List.replicate (bufsiz - bytes.length) '\x00' := by
  simp only [overlay, List.take_zero, List.nil_append, Nat.zero_add, List.drop_replicate,
    List.length_replicate]
  exact List.take_of_length_le (by simp; omega)

theorem terminated_iff (h : bytes.length ≤ bufsiz) :
    '\x00' ∈ overlay (List.replicate bufsiz '\x00') 0 bytes ↔ bytes.length < bufsiz ∨ '\x00' ∈ bytes := by
  rw [overlay_start h, List.mem_append, List.mem_replicate, or_comm]
  have : bufsiz - bytes.length ≠ 0 ↔ bytes.length < bufsiz := by omega
  simp [this]

/-- A loop that goes on after an answer is not contained. -/
theorem not_contained (hloop : readLoop outs (Reading.start errno) = readLoop rest s)
    {pre : List (Nat × ReadOut)} {x : Nat × ReadOut} (hs : s.calls = pre ++ [x]) (hx : x.2 ≠ .fail EINTR) :
    ¬ Contained errno outs := by
  intro h
  obtain ⟨more, hmore, hdone⟩ := loop_calls rest s
  have hcalls : (readLoop outs (Reading.start errno)).1.calls = pre ++ x :: more := by
    rw [hloop, hmore, hs, List.append_assoc]
    rfl
  obtain ⟨rfl, htrue⟩ := h.stops pre x more hcalls hx
  rw [hloop, hdone rfl] at htrue
  cases htrue

/-- A loop that has met nothing but interruptions and, at its end, an error. -/
theorem contained_failed (rest : List ReadOut) (hcalls : (readLoop outs (Reading.start errno)).1.calls =
      List.replicate n (0, .fail EINTR) ++ rest.map (0, ·))
    (hsize : (readLoop outs (Reading.start errno)).1.reqSize = 0)
    (hrest : rest = [] ∨ ∃ e, rest = [.fail e] ∧ (readLoop outs (Reading.start errno)).2 = true) :
    Contained errno outs := by
  have hfail : ∀ x ∈ (readLoop outs (Reading.start errno)).1.calls, ∃ e, x.2 = .fail e := by
    intro x hx
    rw [hcalls, List.mem_append] at hx
    rcases hx with hx | hx
    · exact ⟨EINTR, by rw [List.eq_of_mem_replicate hx]⟩
    · rcases hrest with rfl | ⟨e, rfl, _⟩
      · cases hx
      · exact ⟨e, by rw [List.mem_singleton.mp hx]⟩
  refine ⟨?_, ?_, ?_⟩
  · intro off bytes hmem
    obtain ⟨e, he⟩ := hfail _ hmem
    cases he
  · intro pre x post hsplit hx
    rw [hcalls] at hsplit
    rcases hrest with rfl | ⟨e, rfl, hdone⟩
    · have hmem : x ∈ List.replicate n ((0 : Nat), ReadOut.fail EINTR) ++ List.map (0, ·) [] := by
        rw [hsplit]
        simp
      rw [List.map_nil, List.append_nil] at hmem
      exact absurd (by rw [List.eq_of_mem_replicate hmem]) hx
    · refine ⟨?_, hdone⟩
      rcases List.append_eq_append_iff.mp hsplit with ⟨a, ha, hb⟩ | ⟨a, ha, hb⟩
      · cases a with
        | nil => simpa using (List.cons.inj hb).2.symm
        | cons y a => simp at hb
      · cases a with
        | nil => simpa using (List.cons.inj hb).2.symm
        | cons y a =>
          obtain ⟨rfl, _⟩ := List.cons.inj hb
          have hmem : x ∈ List.replicate n ((0 : Nat), ReadOut.fail EINTR) := by
            rw [ha]
            simp
          exact absurd (by rw [List.eq_of_mem_replicate hmem]) hx
  · intro _ hgone
    rw [Reading.gone, hsize] at hgone
    simp at hgone

theorem first_call (errno : Int) (bytes : List Char) :
    (readCall (Reading.start errno) (.data bytes)).req = overlay (List.replicate bufsiz '\x00') 0 bytes := by
  simp only [readCall, Reading.start]

/-- The first call is answered with data and the loop ends there. -/
theorem contained_first (hlen : bytes.length ≤ bufsiz) (he : errno ≠ EINTR) :
    Contained errno (.data bytes :: outs) ↔ bytes.length < bufsiz ∨ '\x00' ∈ bytes := by
  have hloop : readLoop (.data bytes :: outs) (Reading.start errno) =
      (readCall (Reading.start errno) (.data bytes), true) := by
    rw [readLoop]
    exact if_neg he
  constructor
  · intro h
    have hends := h.ends
    rw [hloop, first_call] at hends
    by_cases hempty : bytes = []
    · subst hempty
      left
      decide
    · rw [← terminated_iff hlen]
      have hpos := List.length_pos_iff.mpr hempty
      refine hends rfl ?_
      simp [Reading.gone, readCall, Reading.start, hempty]
  · intro hterm
    refine ⟨?_, ?_, ?_⟩
    · intro off bs hmem
      rw [hloop] at hmem
      obtain ⟨rfl, rfl⟩ : off = 0 ∧ bs = bytes := by simpa [readCall, Reading.start] using hmem
      omega
    · intro pre x post hsplit _
      rw [hloop] at hsplit ⊢
      refine ⟨?_, rfl⟩
      have hone : [((0 : Nat), ReadOut.data bytes)] = pre ++ x :: post := hsplit
      cases pre with
      | nil => exact (List.cons.inj hone).2.symm
      | cons y pre => simp at hone
    · intro _ _
      rw [hloop, first_call]
      exact (terminated_iff hlen).mpr hterm

theorem request_contained_iff (hsizes : ∀ bytes, .data bytes ∈ outs → bytes.length ≤ bufsiz) :
    Contained errno outs ↔ Clean errno outs := by
  obtain ⟨n, hsplit⟩ := split_interruptions outs
  have hloop : readLoop outs (Reading.start errno) =
      readLoop (outs.dropWhile (· = .fail EINTR)) (interrupted n (Reading.start errno)) := by
    rw [← loop_interrupted, ← hsplit]
  obtain ⟨hreq, hsize, hcalls, herrno⟩ := interrupted_spec n (Reading.start errno)
  unfold Clean
  split
  · rename_i bytes tl hrest
    rw [hrest] at hsplit hloop
    by_cases hfirst : n = 0 ∧ errno ≠ EINTR
    · obtain ⟨rfl, he⟩ := hfirst
      obtain rfl : outs = .data bytes :: tl := hsplit
      rw [contained_first (hsizes bytes List.mem_cons_self) he]
      simp [he]
    · have heintr : (readCall (interrupted n (Reading.start errno)) (.data bytes)).errno = EINTR := by
        change (interrupted n (Reading.start errno)).errno = EINTR
        rw [herrno]
        split
        · by_contra he
          exact hfirst ⟨‹_›, he⟩
        · rfl
      rw [readLoop, if_pos heintr] at hloop
      refine iff_of_false (not_contained hloop (x := (_, .data bytes)) rfl (by simp)) ?_
      rintro ⟨he, hhead, _⟩
      cases n with
      | zero => exact hfirst ⟨rfl, he⟩
      | succ n =>
        rw [hsplit] at hhead
        cases hhead
  · rename_i hnot
    refine iff_of_true ?_ trivial
    cases hrest : outs.dropWhile (· = .fail EINTR) with
    | nil =>
      rw [hrest] at hloop
      refine contained_failed (n := n) [] ?_ ?_ (.inl rfl)
      · rw [hloop, List.map_nil, List.append_nil]
        exact hcalls
      · rw [hloop]
        exact hsize
    | cons out tl =>
      cases out with
      | data bytes => exact absurd hrest (hnot bytes tl)
      | fail e =>
        have he : e ≠ EINTR := by
          rintro rfl
          have := List.head?_dropWhile_not (fun x => decide (x = ReadOut.fail EINTR)) outs
          rw [hrest] at this
          simp at this
        have hother : (readCall (interrupted n (Reading.start errno)) (.fail e)).errno ≠ EINTR := he
        rw [hrest, readLoop, if_neg hother] at hloop
        refine contained_failed (n := n) [.fail e] ?_ ?_ (.inr ⟨e, rfl, ?_⟩)
        · rw [hloop]
          change (interrupted n _).calls ++ [((interrupted n _).reqSize, _)] = _
          rw [hcalls, hsize]
          rfl
        · rw [hloop]
          exact hsize
        · rw [hloop]

theorem request_contained_line :
    Contained 0 [.fail ECONNRESET] ∧ Contained 0 [.data ['g', 'e', 't']] :=
  ⟨(request_contained_iff (by simp)).mpr trivial,
    (request_contained_iff (by simp [bufsiz])).mpr ⟨by decide, rfl, .inl (by decide)⟩⟩

/-- An interruption remembered from before the first call has the loop read on at the
offset a full block leaves; and a full block is not terminated. -/
theorem request_overruns :
    ¬ Contained EINTR [.data (List.replicate bufsiz 'a'), .data ['b']] ∧
      ¬ Contained 0 [.data (List.replicate bufsiz 'a')] := by
  constructor
  · intro h
    have := h.inside bufsiz ['b'] (by simp [readLoop, readCall, Reading.start])
    simp only [List.length_singleton] at this
    omega
  · rw [contained_first (by simp) (by decide)]
    simp

end Glb.Proofs.CtrlRequest
