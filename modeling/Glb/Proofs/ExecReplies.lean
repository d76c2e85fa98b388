import Glb.Exec
import Glb.Standard
import Glb.Lib.Run

namespace Glb.Proofs.ExecReplies
open Lib Lib.CBuffer Lib.Run Lib.Strto

/-- A line with which the script answers a poll. -/
structure Reply where
  latency : ℚ
  line : CStr
  whole : '\n' ∉ line

def Reply.answer (r : Reply) : ExecAnswer := ⟨true, r.latency, r.line ++ ['\n'], 0⟩

variable {libc : Libc} {real : CStr → Option ℚ} {s s' : ExecThread} {r : Reply} {rs : List Reply}
  {line u t buf : CStr} {latency : ℚ}

def pollReply (libc : Libc) (s : ExecThread) (r : Reply) : Option ExecThread := execPoll libc s r.answer

/-- What the watchdog sees of a poll. -/
def published (s : ExecThread) : Int × WdogCheck × Bool := (s.errn, s.result, s.join)

/-- What a poll comes to depends on the line that answers it, and on nothing before. -/
def Own (libc : Libc) (s : ExecThread) : Prop :=
  ∀ r, (pollReply libc s r).map published = (pollReply libc .start r).map published

/-- A line begins with a state in decimal, which ends where the line does or at a blank. -/
def written (line : CStr) : Bool :=
  let t := line.takeWhile (· ≠ '\x00')
  !(t.takeWhile Char.isDigit).isEmpty && decide (Nat.ofDigitChars 10 (t.takeWhile Char.isDigit) 0 ≤ 3) &&
    (t.dropWhile Char.isDigit).head?.all isSpace

/-- Of a thread in its loop: the poll is answered by its own line, and that line is
accepted only as a state. -/
def ReplyPaired (libc : Libc) (s : ExecThread) (r : Reply) : Prop :=
  s.join = false → Own libc s ∧ ((∃ s', pollReply libc s r = some s' ∧ s'.errn = 0) → written r.line = true)

/-- What `exec_thread` reads of a line, as a string. -/
def bufferText (line : CStr) : CStr := ((line ++ ['\n']).take (execResSize - 1)).takeWhile (· ≠ '\x00')

def leftover (line : CStr) : CStr := (line ++ ['\n']).drop (execResSize - 1)

/-- What is read of the line begins with a number up to 3, behind blanks and maybe a
sign, which ends there or at a blank. Without a number it is empty or begins with a blank. -/
def passable (line : CStr) : Bool :=
  match scanInt isSpace (bufferText line) with
  | none => (bufferText line).head?.all isSpace
  | some (neg, n, rest) => decide (n ≤ 3) && (!neg || decide (n = 0)) && rest.head?.all isSpace

/-- The line begins with a digit. If its digits fill the buffer, all of them are a number
up to 3 that ends where the line does or at a blank. -/
def firm (line : CStr) : Bool :=
  let t := line.takeWhile (· ≠ '\x00')
  line.head?.any Char.isDigit && (decide ((t.takeWhile Char.isDigit).length < execResSize - 1) ||
    decide (Nat.ofDigitChars 10 (t.takeWhile Char.isDigit) 0 ≤ 3) && (t.dropWhile Char.isDigit).head?.all isSpace)

/-- Every line up to the first that is not passable is firm, and short unless it is the
last. -/
def LinesOk : List Reply → Prop
  | [] => True
  | r :: rs => passable r.line = true →
      firm r.line = true ∧ (rs ≠ [] → r.line.length < execResSize - 1 ∧ LinesOk rs)

section check

/-- A text is accepted for a number that is a state, which ends where the text does or at
a blank. -/
theorem exec_check_some : (execCheck libc latency buf).isSome = true ↔
    (0 ≤ (libc.strtol buf).value ∧ (libc.strtol buf).value ≤ 3) ∧
      (libc.strtol buf).rest.head?.all isSpace = true := by
  unfold execCheck
  dsimp only
  by_cases hrange : 0 ≤ (libc.strtol buf).value ∧ (libc.strtol buf).value ≤ 3
  · obtain ⟨state, hstate⟩ : ∃ state, (if (libc.strtol buf).value = 0 then some DstState.notfound
        else if (libc.strtol buf).value = 1 then some .notready
        else if (libc.strtol buf).value = 2 then some .avoid
        else if (libc.strtol buf).value = 3 then some .ready
        else none) = some state := by
      have hvalue : (libc.strtol buf).value = 0 ∨ (libc.strtol buf).value = 1 ∨ (libc.strtol buf).value = 2 ∨
          (libc.strtol buf).value = 3 := by omega
      rcases hvalue with hv | hv | hv | hv <;> exact ⟨_, by rw [hv]; rfl⟩
    rw [hstate]
    cases (libc.strtol buf).rest with
    | nil => simp [hrange]
    | cons c others =>
      cases hc : isSpace c with
      | true => simp [hrange, hc]
      | false => simp [hc]
  · rw [if_neg (by omega), if_neg (by omega), if_neg (by omega), if_neg (by omega)]
    simp [hrange]

theorem state_range (neg : Bool) (n : Nat) (rest : CStr) :
    let r : Conv Int := .standard (if signed neg n > longMax then (longMax, rest, true)
      else if signed neg n < longMin then (longMin, rest, true) else (signed neg n, rest, false))
    r.rest = rest ∧ ((0 ≤ r.value ∧ r.value ≤ 3) ↔ n ≤ 3 ∧ (neg = false ∨ n = 0)) := by
  unfold longMax longMin Conv.standard
  have hsigned : 0 ≤ signed neg n ∧ signed neg n ≤ 3 ↔ n ≤ 3 ∧ (neg = false ∨ n = 0) := by
    cases neg with
    | false =>
      simp only [signed, Bool.false_eq_true, if_false, true_or, and_true]
      omega
    | true =>
      simp only [signed, if_true, Bool.true_eq_false, false_or]
      omega
  rw [← hsigned]
  split
  · exact ⟨rfl, by dsimp only; omega⟩
  · split
    · exact ⟨rfl, by dsimp only; omega⟩
    · exact ⟨rfl, Iff.rfl⟩

/-- A line is accepted exactly if it is passable. -/
theorem check_passable (hl : libc.Standard real) (line : CStr) (latency : ℚ) :
    (execCheck libc latency (bufferText line)).isSome = passable line := by
  apply Bool.eq_iff_iff.mpr
  rw [exec_check_some, hl.strtol, strtol, passable]
  cases scanInt isSpace (bufferText line) with
  | none => simp [Conv.standard]
  | some r =>
    obtain ⟨neg, n, rest⟩ := r
    obtain ⟨hrest, hvalue⟩ := state_range neg n rest
    dsimp only at hrest hvalue ⊢
    rw [hrest, hvalue]
    simp

/-- Digits that end within the buffer end there as they do in the line. -/
theorem buffer_text {t ds : CStr} (ht : line.takeWhile (· ≠ '\x00') = t) (hds : t.takeWhile Char.isDigit = ds)
    (hlen : ds.length < execResSize - 1) :
    ∃ rest, bufferText line = ds ++ rest ∧ (∀ c ∈ rest.head?, c.isDigit = false) ∧
      (rest.head?.all isSpace = true → (t.dropWhile Char.isDigit).head?.all isSpace = true) := by
  obtain ⟨e, he, hend⟩ : ∃ e, (line ++ ['\n']).takeWhile (· ≠ '\x00') = t ++ e ∧ (e = [] ∨ e = ['\n']) := by
    rw [List.takeWhile_append]
    split
    · rename_i hall
      refine ⟨['\n'], ?_, .inr rfl⟩
      rw [← ht, (List.takeWhile_prefix _).eq_of_length hall]
      rfl
    · exact ⟨[], by rw [List.append_nil, ht], .inl rfl⟩
  have hcut : t ++ e = ds ++ (t.dropWhile Char.isDigit ++ e) := by
    rw [← List.append_assoc, ← hds, List.takeWhile_append_dropWhile]
  obtain ⟨k, hk⟩ : ∃ k, execResSize - 1 - ds.length = k + 1 := ⟨_, (Nat.succ_pred (by omega)).symm⟩
  refine ⟨(t.dropWhile Char.isDigit ++ e).take (k + 1), ?_, ?_⟩
  · rw [bufferText, ← List.take_takeWhile, he, hcut, List.take_append, List.take_of_length_le hlen.le, hk]
  · have hdigit := digits_end t
    cases hdrop : t.dropWhile Char.isDigit with
    | nil =>
      refine ⟨?_, fun _ => rfl⟩
      rcases hend with rfl | rfl
      · simp
      · simp
    | cons c u =>
      rw [hdrop] at hdigit
      exact ⟨hdigit, fun h => h⟩

/-- Among the lines that are passable, the firm ones are states. -/
theorem written_iff_firm (hpass : passable line = true) : written line = true ↔ firm line = true := by
  unfold written firm
  dsimp only
  generalize ht : line.takeWhile (· ≠ '\x00') = t
  generalize hds : t.takeWhile Char.isDigit = ds
  have hhead : line.head?.any Char.isDigit = !ds.isEmpty := by
    rw [← hds, ← ht]
    cases line with
    | nil => rfl
    | cons c l =>
      by_cases hnul : c = '\x00'
      · subst hnul
        rfl
      · cases hc : c.isDigit with
        | false => simp [hnul, hc]
        | true => simp [hnul, hc]
  rw [hhead]
  by_cases hne : ds = []
  · simp [hne]
  · by_cases hlen : ds.length < execResSize - 1
    · obtain ⟨rest, hbuf, hrest, hblank⟩ := buffer_text ht hds hlen
      have hdigits : ∀ c ∈ ds, c.isDigit = true := fun c hc => List.mem_takeWhile_imp (hds ▸ hc)
      rw [passable, hbuf, scan_digits is_space_digit hne hdigits hrest] at hpass
      simp only [Bool.and_eq_true, decide_eq_true_eq] at hpass
      simp [hne, hlen, hpass.1.1, hblank hpass.2]
    · simp [hlen, Bool.and_assoc]

end check

section step

/-- A poll takes the first line of what there is. -/
theorem poll_line (libc : Libc) (hs : s.join = false) (hu : '\n' ∉ u) (htext : s.unread ++ (r.line ++ ['\n']) = u ++ '\n' :: t) :
    pollReply libc s r =
      match execCheck libc r.latency (bufferText u) with
      | none => some (ExecThread.exit { s with unread := leftover u ++ t } EPROTO)
      | some c => some { s with unread := leftover u ++ t, errn := 0, result := c } := by
  have hbuf : (u ++ ['\n']).take (execResSize - 1) ≠ [] := by
    simp [List.take_eq_nil_iff, execResSize]
  unfold pollReply execPoll Reply.answer
  dsimp only
  rw [hs, htext, fgets_line hu]
  dsimp only
  rw [if_neg Bool.false_ne_true, if_neg (by decide), if_neg hbuf]
  rfl

theorem poll_own (libc : Libc) (hs : s.join = false) (hu : s.unread = []) (r : Reply) :
    pollReply libc s r =
      match execCheck libc r.latency (bufferText r.line) with
      | none => some (ExecThread.exit { s with unread := leftover r.line } EPROTO)
      | some c => some { s with unread := leftover r.line, errn := 0, result := c } := by
  have hpoll := poll_line (t := []) libc hs r.whole (by rw [hu, List.nil_append])
  rwa [List.append_nil] at hpoll

theorem poll_own_published (hs : s.join = false) (hu : s.unread = []) : Own libc s := by
  intro r
  rw [poll_own libc hs hu, poll_own libc rfl rfl]
  cases execCheck libc r.latency (bufferText r.line) with
  | none => rfl
  | some c => simp [published, ExecThread.start, hs]

/-- A thread that has text left answers every poll from it. -/
theorem not_own_left (hl : libc.Standard real) (hs : s.join = false) (hu : '\n' ∉ u) (hleft : s.unread = u ++ ['\n']) :
    ¬ Own libc s := by
  intro hown
  let yes : Reply := ⟨0, ['3'], by decide⟩
  let no : Reply := ⟨0, ['x'], by decide⟩
  have hsame : (pollReply libc s yes).map published = (pollReply libc s no).map published := by
    have htext : ∀ r : Reply, s.unread ++ (r.line ++ ['\n']) = u ++ '\n' :: (r.line ++ ['\n']) := by
      intro r
      rw [hleft, List.append_assoc, List.singleton_append]
    rw [poll_line libc hs hu (htext yes), poll_line libc hs hu (htext no)]
    change Option.map _ (match execCheck libc 0 (bufferText u) with | none => _ | some c => _) =
      Option.map _ (match execCheck libc 0 (bufferText u) with | none => _ | some c => _)
    cases execCheck libc 0 (bufferText u) with
    | none => rfl
    | some c => rfl
  have hyes : (execCheck libc yes.latency (bufferText yes.line)).isSome = true := by
    rw [exec_check_some, hl.strtol]
    decide
  have hno : execCheck libc no.latency (bufferText no.line) = none := by
    apply Option.not_isSome_iff_eq_none.mp
    rw [exec_check_some, hl.strtol]
    decide
  obtain ⟨c, hc⟩ := Option.isSome_iff_exists.mp hyes
  rw [hown yes, hown no, poll_own libc rfl rfl, poll_own libc rfl rfl, hc, hno] at hsame
  cases hsame

end step

section run

theorem along_joined (hs : s.join = true) (rs : List Reply) : Along (pollReply libc) (ReplyPaired libc) s rs := by
  cases rs with
  | nil => trivial
  | cons r rs =>
    refine ⟨fun hnot => ?_, fun t ht => ?_⟩
    · rw [hs] at hnot
      cases hnot
    · unfold pollReply execPoll at ht
      rw [if_pos hs] at ht
      cases ht

theorem leftover_nil (hlen : line.length < execResSize - 1) : leftover line = [] := by
  apply List.drop_of_length_le
  rw [List.length_append, List.length_singleton]
  omega

theorem leftover_line (hlen : ¬ line.length < execResSize - 1) :
    leftover line = line.drop (execResSize - 1) ++ ['\n'] :=
  List.drop_append_of_le_length (Nat.not_lt.mp hlen)

theorem along_lines_iff (hl : libc.Standard real) (hs : s.join = false) (hu : s.unread = []) :
    Along (pollReply libc) (ReplyPaired libc) s rs ↔ LinesOk rs := by
  induction rs generalizing s with
  | nil => rfl
  | cons r rs ih =>
    have hpoll := poll_own libc hs hu r
    have hacc := check_passable hl r.line r.latency
    cases hcheck : execCheck libc r.latency (bufferText r.line) with
    | none =>
      rw [hcheck] at hpoll hacc
      refine iff_of_true ⟨fun _ => ⟨poll_own_published hs hu, ?_⟩, ?_⟩ ?_
      · rintro ⟨s', hs', herr⟩
        obtain rfl := Option.some.inj (hpoll.symm.trans hs')
        cases herr
      · intro t ht
        obtain rfl := Option.some.inj (hpoll.symm.trans ht)
        exact along_joined rfl rs
      · intro hpass
        cases hacc.trans hpass
    | some c =>
      rw [hcheck] at hpoll hacc
      have hpass : passable r.line = true := hacc.symm
      have hfirm := written_iff_firm hpass
      constructor
      · rintro ⟨hpaired, hrest⟩ _
        have hnext := hrest _ hpoll
        refine ⟨hfirm.mp ((hpaired hs).2 ⟨_, hpoll, rfl⟩), fun hne => ?_⟩
        by_cases hlen : r.line.length < execResSize - 1
        · refine ⟨hlen, (ih ?_ ?_).mp hnext⟩
          · exact hs
          · exact leftover_nil hlen
        · -- the next poll would be answered by the rest of this line
          obtain ⟨r', rs', rfl⟩ := List.exists_cons_of_ne_nil hne
          have hwhole : '\n' ∉ r.line.drop (execResSize - 1) := fun hmem => r.whole (List.mem_of_mem_drop hmem)
          exact absurd (hnext.1 hs).1 (not_own_left hl hs hwhole (leftover_line hlen))
      · intro horder
        obtain ⟨hf, hrest⟩ := horder hpass
        refine ⟨fun _ => ⟨poll_own_published hs hu, fun _ => hfirm.mpr hf⟩, fun t ht => ?_⟩
        obtain rfl := Option.some.inj (hpoll.symm.trans ht)
        cases rs with
        | nil => trivial
        | cons r' rs =>
          obtain ⟨hlen, horder⟩ := hrest (List.cons_ne_nil r' rs)
          apply (ih _ _).mpr horder
          · exact hs
          · exact leftover_nil hlen

/-- Polls and replies stay paired exactly if the lines are in order, up to the first that
stops the thread. -/
theorem replies_paired_iff (hl : libc.Standard real) (rs : List Reply) :
    Along (pollReply libc) (ReplyPaired libc) .start rs ↔ LinesOk rs :=
  along_lines_iff hl rfl rfl

/-- A server that is ready, with the others it names, and then is not there. -/
theorem replies_paired_two :
    Along (pollReply noHosts) (ReplyPaired noHosts) .start
      [⟨1, ['3', ' ', 'h', ':', '8', '0'], by decide⟩, ⟨1, ['0'], by decide⟩] := by
  refine (replies_paired_iff (sample_standard _ _) _).mpr fun _ => ⟨by decide, fun _ => ⟨by decide, fun _ => ?_⟩⟩
  exact ⟨by decide, fun hne => absurd rfl hne⟩

/-- A ready server with so many others that its newline does not fit the buffer. -/
def longLine : CStr := '3' :: ' ' :: List.replicate 4093 'x'

/-- An empty line passes for a state. A line that is too long by its newline leaves that
for the next poll, which then takes a ready server for one that is not there. -/
theorem replies_shifted :
    ((pollReply noHosts .start ⟨1, [], by decide⟩).map published =
        some (0, ⟨.notfound, 1, none, 0, true⟩, false) ∧
      ¬ Along (pollReply noHosts) (ReplyPaired noHosts) .start [⟨1, [], by decide⟩]) ∧
    (exec (pollReply noHosts) .start [⟨1, longLine, by decide +kernel⟩, ⟨1, ['3'], by decide⟩]).map
        published = some (0, ⟨.notfound, 1, none, 0, true⟩, false) ∧
      ¬ Along (pollReply noHosts) (ReplyPaired noHosts) .start
        [⟨1, longLine, by decide +kernel⟩, ⟨1, ['3'], by decide⟩] := by
  have hstd : noHosts.Standard realNumber := sample_standard _ _
  refine ⟨⟨by decide +kernel, fun h => ?_⟩, by decide +kernel, fun h => ?_⟩
  · have hfirm := ((along_lines_iff hstd rfl rfl).mp h (by decide +kernel)).1
    cases hfirm
  · have hlen := (((along_lines_iff hstd rfl rfl).mp h (by decide +kernel)).2 (List.cons_ne_nil _ _)).1
    revert hlen
    decide +kernel

end run

end Glb.Proofs.ExecReplies
