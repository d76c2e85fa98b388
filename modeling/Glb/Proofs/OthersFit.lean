import Glb.Others
import Glb.Lib.Run
import Glb.Standard

namespace Glb.Proofs.OthersFit
open Lib.CBuffer Lib.Run

variable {b b' : OthersBuf} {c : CopyIn} {s : String}

/-- What a backend may publish: a result with a length has a members string, and the
string is not longer than that. The length may count the terminator or not. -/
def Published (res : WdogCheck) : Prop :=
  0 < res.othersLen → ∃ s, res.others = some s ∧ (cstr s).length ≤ res.othersLen

theorem cstr_no_nul (s : String) : '\x00' ∉ cstr s := by
  intro h
  have := List.mem_takeWhile_imp h
  simp at this

theorem length_cstr (s : List Char) : (cstr (String.ofList s)).length ≤ s.length := by
  have hle := (List.takeWhile_prefix (l := (String.ofList s).toList)
    (fun c => decide (c ≠ '\x00'))).length_le
  simpa [cstr] using hle

theorem exec_published (h : execCheck libc latency line = some res) : Published res := by
  unfold execCheck at h
  simp only at h
  split at h
  · cases h
  · obtain rfl := Option.some.inj h
    exact fun hpos => absurd hpos (Nat.lt_irrefl 0)
  · split at h
    · obtain rfl := Option.some.inj h
      intro hpos
      exact ⟨_, if_pos hpos, length_cstr _⟩
    · cases h

/-- The buffer is the block it says it is, and what it holds is terminated. -/
def BufferWhole (b : OthersBuf) : Prop :=
  match b.block with
  | none => b.len = 0
  | some block => block.length = b.len ∧ (read block).isSome = true

/-- Copying writes no more bytes than the block has, and the string is there then. -/
def CopyFits (b : OthersBuf) (c : CopyIn) : Prop :=
  ∀ s, wdogWritesOthers c b = some s →
    (∃ block, (wdogResizeOthers c b).1.block = some block ∧ s.length + 1 ≤ block.length) ∧
    ∀ b', wdogCopyBuffer b c = some b' → b'.block.bind read = some s

/-- A members string to be copied whose length counts the terminator, or for which the
buffer that is kept has room left, or for which there is no memory. -/
def Room (b : OthersBuf) (c : CopyIn) : Prop :=
  c.res.ready = true → c.res.state ≠ .notfound → 0 < c.res.othersLen →
    (∀ s, c.res.others = some s → (cstr s).length < c.res.othersLen) ∨
    (c.res.othersLen < b.len ∧ b.len ≤ c.res.othersLen * 2) ∨
    (c.realloc = false ∧ (b.len < c.res.othersLen ∨ c.res.othersLen * 2 < b.len))

/-- What adapting the size can do to the buffer. -/
inductive Resized (c : CopyIn) (b : OthersBuf) : OthersBuf × Bool → Prop
  | freed (hl : c.res.othersLen = 0) : Resized c b (⟨none, 0⟩, true)
  | fresh (hl : 0 < c.res.othersLen) (hout : b.len < c.res.othersLen ∨ c.res.othersLen * 2 < b.len)
    (hm : c.realloc = true) :
    Resized c b (⟨some (resize c.junk c.res.othersLen (b.block.getD [])), c.res.othersLen⟩, true)
  | lost (hl : 0 < c.res.othersLen) (hout : b.len < c.res.othersLen ∨ c.res.othersLen * 2 < b.len)
    (hm : c.realloc = false) : Resized c b (⟨none, 0⟩, false)
  | kept (hlow : c.res.othersLen ≤ b.len) (hup : b.len ≤ c.res.othersLen * 2) : Resized c b (b, false)

theorem resize_cases (c : CopyIn) (b : OthersBuf) : Resized c b (wdogResizeOthers c b) := by
  unfold wdogResizeOthers
  split
  · rename_i hout
    simp only [Bool.or_eq_true, decide_eq_true_eq] at hout
    split
    · rename_i hl
      exact .freed hl
    · rename_i hl
      split
      · rename_i hm
        exact .fresh (Nat.pos_of_ne_zero hl) hout hm
      · rename_i hm
        exact .lost (Nat.pos_of_ne_zero hl) hout (by simpa using hm)
  · rename_i hin
    simp only [Bool.or_eq_true, decide_eq_true_eq, not_or] at hin
    exact .kept (by omega) (by omega)

/-- A live result, the only kind whose members string is looked at. -/
def live (c : CopyIn) : Bool := c.res.ready && c.res.state ≠ .notfound

theorem writes_idle (h : live c = false) : wdogWritesOthers c b = none := by
  unfold live at h
  simp only [wdogWritesOthers, h, Bool.false_eq_true, ↓reduceIte]

theorem writes_live (h : live c = true) : wdogWritesOthers c b =
    if c.res.othersLen > 0 && (wdogResizeOthers c b).1.len ≥ c.res.othersLen &&
        ((wdogResizeOthers c b).2 || (wdogResizeOthers c b).1.block.bind read ≠ c.res.others.map cstr) then
      c.res.others.map cstr
    else none := by
  unfold live at h
  simp only [wdogWritesOthers, h, ↓reduceIte]

/-- What a live result with a members string does: a new block is written to, or there
is no memory for one, or the block that is kept is written to unless it has the string. -/
inductive Wrote (c : CopyIn) (b : OthersBuf) (s : String) : OthersBuf × Bool → Option CStr → Prop
  | fresh (block : List Char) (hlen : block.length = c.res.othersLen)
    (hout : b.len < c.res.othersLen ∨ c.res.othersLen * 2 < b.len) (hm : c.realloc = true) :
    Wrote c b s (⟨some block, c.res.othersLen⟩, true) (some (cstr s))
  | lost (hout : b.len < c.res.othersLen ∨ c.res.othersLen * 2 < b.len) (hm : c.realloc = false) :
    Wrote c b s (⟨none, 0⟩, false) none
  | same (hlow : c.res.othersLen ≤ b.len) (hup : b.len ≤ c.res.othersLen * 2)
    (heq : b.block.bind read = some (cstr s)) : Wrote c b s (b, false) none
  | rewrites (hlow : c.res.othersLen ≤ b.len) (hup : b.len ≤ c.res.othersLen * 2) :
    Wrote c b s (b, false) (some (cstr s))

theorem writes_cases (hl : live c = true) (hs : c.res.others = some s) (hpos : 0 < c.res.othersLen) :
    Wrote c b s (wdogResizeOthers c b) (wdogWritesOthers c b) := by
  rw [writes_live hl]
  have hr := resize_cases c b
  generalize wdogResizeOthers c b = r at hr ⊢
  cases hr with
  | freed h0 => omega
  | fresh _ hout hm =>
    simpa [hpos, hs] using Wrote.fresh (s := s) _ (length_resize c.junk _ _) hout hm
  | lost _ hout hm => simpa [Nat.not_le.mpr hpos] using Wrote.lost (s := s) hout hm
  | kept hlow hup =>
    by_cases heq : b.block.bind read = some (cstr s)
    · simpa [hpos, hs, hlow, heq] using Wrote.same hlow hup heq
    · simpa [hpos, hs, hlow, heq] using Wrote.rewrites (s := s) hlow hup

theorem writes_nothing (h : c.res.othersLen = 0) : wdogWritesOthers c b = none := by
  cases hl : live c with
  | false => exact writes_idle hl
  | true => simp [writes_live hl, h]

theorem copy_idle (h : live c = false) : wdogCopyBuffer b c = some b := by
  unfold live at h
  simp only [wdogCopyBuffer, h, Bool.false_eq_true, ↓reduceIte]

theorem copy_live (h : live c = true) : wdogCopyBuffer b c =
    match wdogWritesOthers c b with
    | none => some (wdogResizeOthers c b).1
    | some s => ((wdogResizeOthers c b).1.block.bind (strcpy · s)).map
        (fun block => { (wdogResizeOthers c b).1 with block := some block }) := by
  unfold live at h
  exact if_pos h

/-- What a copy leaves once `strcpy` has been called. -/
theorem copy_wrote (hl : live c = true) (hw : wdogWritesOthers c b = some t)
    (h : wdogCopyBuffer b c = some b') : ∃ block block',
    (wdogResizeOthers c b).1.block = some block ∧ strcpy block t = some block' ∧
      b' = ⟨some block', (wdogResizeOthers c b).1.len⟩ := by
  rw [copy_live hl, hw] at h
  simp only [Option.map_eq_some_iff, Option.bind_eq_some_iff] at h
  obtain ⟨block', ⟨block, hb, hc⟩, rfl⟩ := h
  exact ⟨block, block', hb, hc, rfl⟩

theorem whole_block (hw : BufferWhole b) (hpos : 0 < b.len) :
    ∃ block t, b.block = some block ∧ block.length = b.len ∧ read block = some t := by
  unfold BufferWhole at hw
  split at hw
  · omega
  · rename_i block hb
    obtain ⟨t, ht⟩ := Option.isSome_iff_exists.mp hw.2
    exact ⟨block, t, hb, hw.1, ht⟩

/-- The string is written to be read: all of it is before the terminator. -/
theorem writes_no_nul (h : wdogWritesOthers c b = some t) : '\x00' ∉ t := by
  unfold wdogWritesOthers at h
  split at h
  · simp only at h
    split at h
    · obtain ⟨s, -, rfl⟩ := Option.map_eq_some_iff.mp h
      exact cstr_no_nul s
    · cases h
  · cases h

theorem copy_reads (hl : live c = true) (hw : wdogWritesOthers c b = some t)
    (h : wdogCopyBuffer b c = some b') : b'.block.bind read = some t := by
  obtain ⟨block, block', -, hc, rfl⟩ := copy_wrote hl hw h
  exact read_strcpy (writes_no_nul hw) hc

theorem fits_iff_block (hl : live c = true) (hw : wdogWritesOthers c b = some t)
    (hb : (wdogResizeOthers c b).1.block = some block) : CopyFits b c ↔ t.length < block.length := by
  constructor
  · intro h
    obtain ⟨⟨block', hb', hlen⟩, -⟩ := h t hw
    obtain rfl := Option.some.inj (hb.symm.trans hb')
    exact hlen
  · intro h s hs
    obtain rfl := Option.some.inj (hw.symm.trans hs)
    exact ⟨⟨block, hb, h⟩, fun b' => copy_reads hl hw⟩

theorem fits_silent (h : wdogWritesOthers c b = none) : CopyFits b c := by
  intro s hs
  rw [h] at hs
  cases hs

/-- The copy fits exactly when there is room for the terminator. A block that is kept
and has the string already has the terminator too, so it has room whether or not the
copy is made. -/
theorem fits_iff (hb : BufferWhole b) (hp : Published c.res) : CopyFits b c ↔ Room b c := by
  cases hl : live c with
  | false =>
    refine iff_of_true (fits_silent (writes_idle hl)) ?_
    intro hr hst
    simp [live, hr, hst] at hl
  | true =>
  rcases Nat.eq_zero_or_pos c.res.othersLen with h0 | hpos
  · exact iff_of_true (fits_silent (writes_nothing h0)) (fun _ _ hpos => by omega)
  obtain ⟨s, hs, hle⟩ := hp hpos
  have hroom : Room b c ↔ (cstr s).length < c.res.othersLen ∨
      (c.res.othersLen < b.len ∧ b.len ≤ c.res.othersLen * 2) ∨
      (c.realloc = false ∧ (b.len < c.res.othersLen ∨ c.res.othersLen * 2 < b.len)) := by
    simp only [live, Bool.and_eq_true, decide_eq_true_eq] at hl
    simp [Room, hl, hpos, hs]
  rw [hroom]
  have hw := writes_cases (b := b) hl hs hpos
  generalize hres : wdogResizeOthers c b = r, hwr : wdogWritesOthers c b = w at hw
  cases hw with
  | fresh block hlen hout hm =>
    rw [fits_iff_block hl hwr (by rw [hres]), hlen]
    simp only [hm, Bool.true_eq_false, false_and, or_false]
    omega
  | lost hout hm => exact iff_of_true (fits_silent hwr) (Or.inr (Or.inr ⟨hm, hout⟩))
  | same hlow hup heq =>
    refine iff_of_true (fits_silent hwr) ?_
    obtain ⟨block, t, hblock, hlen, ht⟩ := whole_block hb (by omega)
    have hshort := length_read ht
    rw [hblock] at heq
    obtain rfl := Option.some.inj (ht.symm.trans heq)
    omega
  | rewrites hlow hup =>
    obtain ⟨block, t, hblock, hlen, -⟩ := whole_block hb (by omega)
    rw [fits_iff_block hl hwr (by rw [hres]; exact hblock), hlen]
    omega

/-- The size of the buffer does not suit the new string. -/
def Unfit (c : CopyIn) (b : OthersBuf) : Prop :=
  b.len < c.res.othersLen ∨ c.res.othersLen * 2 < b.len

/-- What a copy leaves of the buffer, by what the result says of the members. -/
inductive BufferCopied (c : CopyIn) (b : OthersBuf) : OthersBuf → Prop
  | idle (hl : live c = false) : BufferCopied c b b
  | silent (hl : live c = true) (h0 : c.res.othersLen = 0) (hlen : b.len = 0) : BufferCopied c b b
  | freed (hl : live c = true) (h0 : c.res.othersLen = 0) (hlen : 0 < b.len) : BufferCopied c b ⟨none, 0⟩
  | lost (hl : live c = true) (hpos : 0 < c.res.othersLen) (hout : Unfit c b) (hm : c.realloc = false) :
    BufferCopied c b ⟨none, 0⟩
  | same (hl : live c = true) (hpos : 0 < c.res.othersLen) (hs : c.res.others = some t)
    (hin : ¬ Unfit c b) (heq : b.block.bind read = some (cstr t)) : BufferCopied c b b
  | fresh (hl : live c = true) (hpos : 0 < c.res.othersLen) (hs : c.res.others = some t)
    (hout : Unfit c b) (hm : c.realloc = true) (hlen : block.length = c.res.othersLen)
    (hr : read block = some (cstr t)) : BufferCopied c b ⟨some block, c.res.othersLen⟩
  | rewrites (hl : live c = true) (hpos : 0 < c.res.othersLen) (hs : c.res.others = some t)
    (hin : ¬ Unfit c b) (hlen : block.length = b.len) (hr : read block = some (cstr t)) :
    BufferCopied c b ⟨some block, b.len⟩

theorem copy_silent (hl : live c = true) (h0 : c.res.othersLen = 0)
    (h : wdogCopyBuffer b c = some b') : BufferCopied c b b' := by
  rw [copy_live hl, writes_nothing h0] at h
  obtain rfl := Option.some.inj h
  have hr := resize_cases c b
  generalize hres : wdogResizeOthers c b = r at hr
  cases hr with
  | freed _ =>
    refine .freed hl h0 (Nat.pos_of_ne_zero fun hlen => ?_)
    simp [wdogResizeOthers, h0, hlen, Prod.ext_iff] at hres
  | fresh hpos _ _ => omega
  | lost hpos _ _ => omega
  | kept _ hup => exact .silent hl h0 (by omega)

theorem copy_cases (hb : BufferWhole b) (hp : Published c.res) (h : wdogCopyBuffer b c = some b') :
    BufferCopied c b b' := by
  cases hl : live c with
  | false =>
    rw [copy_idle hl] at h
    obtain rfl := Option.some.inj h
    exact .idle hl
  | true =>
  rcases Nat.eq_zero_or_pos c.res.othersLen with h0 | hpos
  · exact copy_silent hl h0 h
  obtain ⟨s, hs, -⟩ := hp hpos
  have hw := writes_cases (b := b) hl hs hpos
  have hcopy := copy_live (b := b) hl
  generalize hres : wdogResizeOthers c b = r, hwr : wdogWritesOthers c b = w at hw hcopy
  cases hw with
  | fresh block hlen hout hm =>
    obtain ⟨block₁, block', hb₁, hc, rfl⟩ := copy_wrote hl hwr h
    rw [hres] at hb₁ ⊢
    obtain rfl := Option.some.inj hb₁
    exact .fresh hl hpos hs hout hm ((length_strcpy hc).trans hlen) (read_strcpy (cstr_no_nul s) hc)
  | lost hout hm =>
    obtain rfl := Option.some.inj (hcopy.symm.trans h)
    exact .lost hl hpos hout hm
  | same hlow hup heq =>
    obtain rfl := Option.some.inj (hcopy.symm.trans h)
    exact .same hl hpos hs (by unfold Unfit; omega) heq
  | rewrites hlow hup =>
    obtain ⟨block, -, hblock, hlen, -⟩ := whole_block hb (by omega)
    obtain ⟨block₁, block', hb₁, hc, rfl⟩ := copy_wrote hl hwr h
    rw [hres] at hb₁ ⊢
    obtain rfl := Option.some.inj (hblock.symm.trans hb₁)
    exact .rewrites hl hpos hs (by unfold Unfit; omega) ((length_strcpy hc).trans hlen)
      (read_strcpy (cstr_no_nul s) hc)

/-- Copying keeps the buffer what it says it is. -/
theorem copy_whole (hb : BufferWhole b) (hp : Published c.res) (h : wdogCopyBuffer b c = some b') : BufferWhole b' := by
  cases copy_cases hb hp h with
  | idle _ => exact hb
  | silent _ _ _ => exact hb
  | freed _ _ _ => exact rfl
  | lost _ _ _ _ => exact rfl
  | same _ _ _ _ _ => exact hb
  | fresh _ _ _ _ _ hlen hr => exact ⟨hlen, by rw [hr]; rfl⟩
  | rewrites _ _ _ _ hlen hr => exact ⟨hlen, by rw [hr]; rfl⟩

/-- The buffer is that of a result: its size and its string. -/
def Backs (b : OthersBuf) (old : WdogCheck) : Prop :=
  b.len = old.othersLen ∧ b.block.bind read = old.others.map cstr

theorem copy_result_others (realloc : Bool) (lf : Int) (d : WdogDst) (k : BackendCtx) (maxLat : ℚ) :
    let res := (wdogCopyResult realloc lf d k maxLat).1.result
    (res.others, res.othersLen) =
      if k.result.ready && k.result.state ≠ .notfound then wdogCopyOthers realloc d.result k.result
      else (d.result.others, d.result.othersLen) := by
  unfold wdogCopyResult
  cases hr : k.result.ready <;> cases hs : k.result.state <;> simp [hr, hs]

/-- The buffer of bytes does what the copying of the result says of the string. -/
theorem copy_backs (hb : BufferWhole b) (hp : Published c.res) (hk : k.result = c.res) (hd : Backs b d.result)
    (h : wdogCopyBuffer b c = some b') :
    Backs b' (wdogCopyResult c.realloc lf d k maxLat).1.result := by
  have hres := copy_result_others c.realloc lf d k maxLat
  simp only at hres
  generalize (wdogCopyResult c.realloc lf d k maxLat).1.result = res at hres ⊢
  have hlive : (c.res.ready && c.res.state ≠ .notfound) = live c := rfl
  rw [hk, hlive] at hres
  unfold wdogCopyOthers at hres
  rw [← hd.1] at hres
  obtain ⟨hlen, htext⟩ := hd
  cases copy_cases hb hp h with
  | idle hl =>
    obtain ⟨ho, hn⟩ : res.others = d.result.others ∧ res.othersLen = b.len := by simpa [hl] using hres
    exact ⟨hn.symm, ho ▸ htext⟩
  | silent hl h0 h1 =>
    obtain ⟨ho, hn⟩ : res.others = d.result.others ∧ res.othersLen = b.len := by
      simpa [hl, h0, h1] using hres
    exact ⟨hn.symm, ho ▸ htext⟩
  | freed hl h0 hpos =>
    obtain ⟨ho, hn⟩ : res.others = none ∧ res.othersLen = 0 := by simpa [hl, h0, hpos] using hres
    exact ⟨hn.symm, by simp [ho]⟩
  | lost hl hpos hout hm =>
    obtain ⟨ho, hn⟩ : res.others = none ∧ res.othersLen = 0 := by
      simpa [hl, hm, show _ ∨ _ from hout] using hres
    exact ⟨hn.symm, by simp [ho]⟩
  | same hl hpos hs hin heq =>
    obtain ⟨ho, hn⟩ : res.others = c.res.others ∧ res.othersLen = b.len := by
      simpa [hl, hpos, show ¬ (_ ∨ _) from hin] using hres
    exact ⟨hn.symm, by rw [ho, hs, heq]; rfl⟩
  | fresh hl hpos hs hout hm _ hr =>
    obtain ⟨ho, hn⟩ : res.others = c.res.others ∧ res.othersLen = c.res.othersLen := by
      simpa [hl, hpos, hm, show _ ∨ _ from hout] using hres
    exact ⟨hn.symm, by rw [ho, hs]; exact hr⟩
  | rewrites hl hpos hs hin _ hr =>
    obtain ⟨ho, hn⟩ : res.others = c.res.others ∧ res.othersLen = b.len := by
      simpa [hl, hpos, show ¬ (_ ∨ _) from hin] using hres
    exact ⟨hn.symm, by rw [ho, hs]; exact hr⟩

/-- A run of copies fits the buffer throughout exactly when there is room throughout. -/
theorem copies_fit_iff (cs : List CopyIn) (hp : ∀ c ∈ cs, Published c.res) :
    Along wdogCopyBuffer CopyFits ⟨none, 0⟩ cs ↔ Along wdogCopyBuffer Room ⟨none, 0⟩ cs := by
  have hkeep : ∀ (ok : OthersBuf → CopyIn → Prop) b c b', BufferWhole b → ok b c ∧ Published c.res →
      wdogCopyBuffer b c = some b' → BufferWhole b' :=
    fun ok b c b' hb hc h => copy_whole hb hc.2 h
  constructor
  · intro h
    exact along_keeps (hkeep CopyFits) (fun b c hb hc => (fits_iff hb hc.2).mp hc.1) rfl (along_labels h hp)
  · intro h
    exact along_keeps (hkeep Room) (fun b c hb hc => (fits_iff hb hc.2).mpr hc.1) rfl (along_labels h hp)

/-- A member that counts the terminator of its string, and then a member like that of the
exec backend, whose shorter string goes to the block that is kept. -/
def roomy : List CopyIn :=
  [⟨⟨.ready, 1, some "10.0.0.2:3306\n", 15, true⟩, true, ' '⟩,
    ⟨⟨.ready, 1, some "10.0.0.3:1\n", 11, true⟩, false, ' '⟩]

theorem copies_fit_iff_roomy : Along wdogCopyBuffer Room ⟨none, 0⟩ roomy ∧
    Along wdogCopyBuffer CopyFits ⟨none, 0⟩ roomy := by
  have hroom : Along wdogCopyBuffer Room ⟨none, 0⟩ roomy := by
    refine ⟨fun _ _ _ => Or.inl ?_, fun b hb => ⟨fun _ _ _ => Or.inr (Or.inl ?_), fun _ _ => trivial⟩⟩
    · intro s hs
      obtain rfl := Option.some.inj hs
      decide
    · have hlen := congrArg (Option.map OthersBuf.len) hb
      obtain hlen : 15 = b.len := Option.some.inj hlen
      rw [← hlen]
      decide
  refine ⟨hroom, (copies_fit_iff roomy ?_).mpr hroom⟩
  intro c hc hpos
  simp only [roomy, List.mem_cons, List.not_mem_nil, or_false] at hc
  obtain rfl | rfl := hc
  · exact ⟨_, rfl, by decide⟩
  · exact ⟨_, rfl, by decide⟩

/-- The answer of an exec backend that knows one other member: its string is as long as
it says, so the first copy writes one byte more than it has asked for. -/
theorem first_members_overrun :
    ∃ res, execCheck letterHosts 1 "3 10.0.0.2:3306\n".toList = some res ∧
      res.others.map (·.length) = some res.othersLen ∧
      wdogWritesOthers ⟨res, true, ' '⟩ ⟨none, 0⟩ = res.others.map cstr ∧
      (wdogResizeOthers ⟨res, true, ' '⟩ ⟨none, 0⟩).1.block.map List.length = some res.othersLen ∧
      ¬ Along wdogCopyBuffer CopyFits ⟨none, 0⟩ [⟨res, true, ' '⟩] := by
  refine ⟨⟨.ready, 1, some "10.0.0.2:3306\n", 14, true⟩, by decide +kernel, by decide +kernel,
    by decide +kernel, by decide +kernel, ?_⟩
  intro h
  obtain ⟨⟨block, hblock, hlen⟩, -⟩ := h.1 "10.0.0.2:3306\n".toList (by decide +kernel)
  obtain rfl := Option.some.inj hblock
  rw [length_resize] at hlen
  exact absurd hlen (by decide)

end Glb.Proofs.OthersFit
