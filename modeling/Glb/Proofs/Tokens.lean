import Glb.Parse
import Glb.Lib.Runs

namespace Glb.Proofs.Tokens
open Lib.Runs

variable {sep prev c : Char} {cs s : CStr} {list : List CStr} {calloc : Nat → Bool}

/-- What the tokens are to be separated by. -/
def separates (sep c : Char) : Bool := isSpace c || sep = c

/-- The list of the string's tokens, as splitting would have it. -/
structure Splits (sep : Char) (s : CStr) (list : List CStr) : Prop where
  runs : list = runs (separates sep) s
  clean : ∀ t ∈ list, t ≠ [] ∧ ∀ c ∈ t, separates sep c = false

section loops

/-- What the first loop puts in place of a character. -/
def tokenMark (sep c : Char) : Char := if separates sep c then '\x00' else c

theorem mark_tokens_buf (sep prev : Char) (cs : CStr) : (markTokens sep prev cs).1 = cs.map (tokenMark sep) := by
  induction cs generalizing prev with
  | nil => rfl
  | cons c cs ih => exact congrArg (tokenMark sep c :: ·) (ih _)

/-- The ends of tokens that the first loop counts are the beginnings that the second
loop finds, besides the token it is called in. -/
theorem mark_tokens_num (sep prev : Char) (cs : CStr) :
    (markTokens sep prev cs).2 =
      (tokenStarts prev (cs.map (tokenMark sep))).length + if prev ≠ '\x00' then 1 else 0 := by
  induction cs generalizing prev with
  | nil =>
    change (if prev ≠ '\x00' then 1 else 0) = 0 + _
    rw [Nat.zero_add]
  | cons c cs ih =>
    have hnum : (markTokens sep prev (c :: cs)).2 =
        if tokenMark sep c = '\x00' ∧ prev ≠ '\x00' then (markTokens sep (tokenMark sep c) cs).2 + 1
        else (markTokens sep (tokenMark sep c) cs).2 := rfl
    rw [hnum, ih, List.map_cons, tokenStarts]
    by_cases hp : prev = '\x00' <;> by_cases hc : tokenMark sep c = '\x00' <;> simp [hp, hc]

theorem mark_eq_nul (sep : Char) (hc : c ≠ '\x00') : tokenMark sep c = '\x00' ↔ separates sep c = true := by
  unfold tokenMark
  split
  · exact iff_of_true rfl ‹_›
  · exact iff_of_false hc ‹_›

theorem mark_other (hc : separates sep c = false) : tokenMark sep c = c := by
  unfold tokenMark
  rw [hc]
  rfl

/-- A token ends at the next separator. -/
theorem token_text (hs : '\x00' ∉ cs) :
    (cs.map (tokenMark sep)).takeWhile (· ≠ '\x00') = cs.takeWhile fun c => !separates sep c := by
  induction cs with
  | nil => rfl
  | cons c cs ih =>
    obtain ⟨hc, hs⟩ := not_or.mp (List.mem_cons.not.mp hs)
    cases hsep : separates sep c with
    | true => simp [(mark_eq_nul sep (Ne.symm hc)).mpr hsep, hsep]
    | false => simpa [mark_other hsep, hsep, Ne.symm hc] using ih hs

/-- The second loop finds the runs, those behind the token it is called in. -/
theorem token_starts_runs (hs : '\x00' ∉ cs) (prev : Char) :
    tokenStarts prev (cs.map (tokenMark sep)) =
      runs (separates sep) (if prev = '\x00' then cs else cs.dropWhile fun c => !separates sep c) := by
  induction cs generalizing prev with
  | nil => simp [tokenStarts]
  | cons c cs ih =>
    obtain ⟨hc, hs⟩ := not_or.mp (List.mem_cons.not.mp hs)
    have hnul := mark_eq_nul sep (Ne.symm hc)
    rw [List.map_cons, tokenStarts, ih hs]
    cases hsep : separates sep c with
    | true =>
      rw [if_neg (fun h => h.2 (hnul.mpr hsep)), if_pos (hnul.mpr hsep)]
      simp [hsep, runs_sep]
    | false =>
      rw [mark_other hsep, if_neg (Ne.symm hc)]
      by_cases hp : prev = '\x00'
      · rw [if_pos ⟨hp, Ne.symm hc⟩, if_pos hp, runs_cons hsep]
        simpa [Ne.symm hc] using token_text hs
      · rw [if_neg (fun h => hp h.1), if_neg hp]
        simp [hsep]

end loops

/-- The list that is returned: it is one entry per end of token, the first of them for
the beginning of the string, whatever stands there. -/
theorem token_string_cases (hs : '\x00' ∉ c :: cs) (h : glbParseTokenString calloc (c :: cs) sep = some list) :
    calloc (markTokens sep c cs).2 = true ∧
      list = (c :: cs.takeWhile fun c => !separates sep c) ::
        runs (separates sep) (cs.dropWhile fun c => !separates sep c) ∧
      list.length = (markTokens sep c cs).2 := by
  obtain ⟨hc, hcs⟩ := not_or.mp (List.mem_cons.not.mp hs)
  unfold glbParseTokenString at h
  dsimp only at h
  split at h
  case isFalse => cases h
  case isTrue hcalloc =>
    obtain rfl := Option.some.inj h
    rw [mark_tokens_num, if_pos (Ne.symm hc)]
    rw [mark_tokens_buf]
    refine ⟨by rwa [mark_tokens_num, if_pos (Ne.symm hc)] at hcalloc, ?_, rfl⟩
    rw [token_starts_runs hcs, if_neg (Ne.symm hc)]
    simpa [Ne.symm hc] using token_text hcs

/-- The pointers that are stored are as many as were counted, and there is one. -/
theorem token_list_fits (hs : '\x00' ∉ c :: cs) (sep : Char) (calloc : Nat → Bool) :
    1 ≤ (markTokens sep c cs).2 ∧ ∀ list, glbParseTokenString calloc (c :: cs) sep = some list →
      calloc (markTokens sep c cs).2 = true ∧ list.length = (markTokens sep c cs).2 := by
  have hc := (not_or.mp (List.mem_cons.not.mp hs)).1
  constructor
  · rw [mark_tokens_num, if_pos (Ne.symm hc)]
    exact Nat.le_add_left 1 _
  · intro list h
    obtain ⟨hcalloc, _, hlen⟩ := token_string_cases hs h
    exact ⟨hcalloc, hlen⟩

/-- Separators first, last and twice. -/
theorem token_list_fits_stray :
    ∃ list, glbParseTokenString (fun _ => true) [',', ',', 'a', ',', ',', ' ', 'b', ','] ',' = some list ∧
      list.length = (markTokens ',' ',' [',', 'a', ',', ',', ' ', 'b', ',']).2 := by
  have hparse : glbParseTokenString (fun _ => true) [',', ',', 'a', ',', ',', ' ', 'b', ','] ',' =
      some [[','], ['a'], ['b']] := by decide
  exact ⟨_, hparse, ((token_list_fits (by decide) ',' fun _ => true).2 _ hparse).2⟩

/-- The tokens are those of splitting exactly if the string does not begin with a
separator. -/
theorem tokens_split_iff (hs : '\x00' ∉ c :: cs) (h : glbParseTokenString calloc (c :: cs) sep = some list) :
    Splits sep (c :: cs) list ↔ separates sep c = false := by
  obtain ⟨_, hlist, _⟩ := token_string_cases hs h
  constructor
  · intro hsplits
    refine (hsplits.clean (c :: cs.takeWhile fun c => !separates sep c) ?_).2 c List.mem_cons_self
    rw [hlist]
    exact List.mem_cons_self
  · intro hc
    have hruns : list = runs (separates sep) (c :: cs) := by rw [hlist, runs_cons hc]
    exact ⟨hruns, fun t ht => mem_runs (hruns ▸ ht)⟩

theorem tokens_split_stray :
    ∃ list, glbParseTokenString (fun _ => true) ['a', ',', ',', ' ', 'b', ','] ',' = some list ∧
      Splits ',' ['a', ',', ',', ' ', 'b', ','] list := by
  have hparse : glbParseTokenString (fun _ => true) ['a', ',', ',', ' ', 'b', ','] ',' =
      some [['a'], ['b']] := by decide
  exact ⟨_, hparse, (tokens_split_iff (by decide) hparse).mpr (by decide)⟩

/-- The first of the members is missing, and the token in its place is a separator with
the next one. -/
theorem leading_separator_kept :
    glbParseTokenString (fun _ => true) (cstr ",a,b") ',' = some [cstr ",a", cstr "b"] ∧
      ¬ Splits ',' (cstr ",a,b") [cstr ",a", cstr "b"] := by
  refine ⟨by decide, fun h => ?_⟩
  have hclean := (h.clean (cstr ",a") (by decide)).2 ',' (by decide)
  revert hclean
  decide

end Glb.Proofs.Tokens
