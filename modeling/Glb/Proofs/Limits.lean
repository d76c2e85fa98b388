import Glb.Limits

namespace Glb.Proofs.Limits

/-- `val * 2 + 5 + GLB_MAX_CTRL_CONN` has no signed overflow. -/
def NoOverflow (val : Int) : Prop := -2 ^ 31 ≤ val * 2 ∧ val * 2 + reservedFiles < 2 ^ 31

/-- `glb_set_conn_limit` comes to ask for the limit once more. -/
def FallsBack (ok : SetRlimit) (rlp : Rlimit) (val : Int) : Prop :=
  val > glbGetConnLimit rlp ∧ rlp.cur < toRlim (toInt (val * 2 + reservedFiles)) ∧ ok.first = false

/-- The connection limit fits the open files limit, and nothing overflows or wraps around
on the way. -/
structure LimitFits (ok : SetRlimit) (rlp : Rlimit) (cnf : CmdCnf) : Prop where
  overflow : cnf.maxConn > glbGetConnLimit rlp → NoOverflow cnf.maxConn
  wrap : reservedFiles ≤ rlp.cur
  wrapAgain : FallsBack ok rlp cnf.maxConn → reservedFiles ≤ (raisedToMax ok rlp).cur
  fits : 0 < (cmdAdjust (rlp.limits ok) cnf).maxConn →
    2 * (cmdAdjust (rlp.limits ok) cnf).maxConn + reservedFiles ≤ (cmdRlimit ok rlp cnf.maxConn).cur

/-- What has to be the case: there are that many files, and a limit that is asked for is
there, is granted, or is replaced by one that admits at least one connection. -/
def Affordable (ok : SetRlimit) (rlp : Rlimit) (val : Int) : Prop :=
  reservedFiles ≤ rlp.cur ∧ (val > glbGetConnLimit rlp → NoOverflow val ∧
    (FallsBack ok rlp val → reservedFiles ≤ (raisedToMax ok rlp).cur ∧
      (0 < val → 0 < glbGetConnLimit (raisedToMax ok rlp) ∨
        val * 2 + reservedFiles ≤ (raisedToMax ok rlp).cur)))

instance (val : Int) : Decidable (NoOverflow val) := inferInstanceAs (Decidable (_ ∧ _))

variable {ok : SetRlimit} {rlp : Rlimit} {val : Int} {cnf : CmdCnf}

theorem to_int_le {x : Int} (h : 0 ≤ x) : toInt x ≤ x := by
  unfold toInt
  rw [Int.bmod_def]
  split <;> omega

/-- The limit is sound whatever is cut off of it. -/
theorem get_limit_le (h : reservedFiles ≤ rlp.cur) (hlt : rlp.cur < 2 ^ 64) :
    2 * glbGetConnLimit rlp + reservedFiles ≤ rlp.cur := by
  have hle := to_int_le (x := ((rlp.cur + 2 ^ 64 - reservedFiles) % 2 ^ 64 / 2 : Nat)) (by omega)
  have hmod : (rlp.cur + 2 ^ 64 - reservedFiles) % 2 ^ 64 = rlp.cur - reservedFiles := by omega
  rw [hmod] at hle
  unfold glbGetConnLimit
  rw [hmod]
  omega

theorem to_int_exact (h : NoOverflow val) : toInt (val * 2 + reservedFiles) = val * 2 + reservedFiles :=
  Int.bmod_eq_of_le (by have := h.1; omega) (by have := h.2; omega)

theorem to_rlim_nonneg {x : Int} (h : 0 ≤ x) (hlt : x < 2 ^ 64) : (toRlim x : Int) = x := by
  unfold toRlim
  omega

theorem to_rlim_lt (x : Int) : toRlim x < 2 ^ 64 := by
  unfold toRlim
  omega

theorem raised_lt (ok : SetRlimit) (h : rlp.cur < 2 ^ 64) : (raisedToMax ok rlp).cur < 2 ^ 64 := by
  unfold raisedToMax
  split
  · dsimp only
    exact to_rlim_lt _
  · exact h

/-- How `glb_cmd_parse` comes to the connection limit. -/
theorem adjust_max_conn (ok : SetRlimit) (rlp : Rlimit) (cnf : CmdCnf) :
    (cmdAdjust (rlp.limits ok) cnf).maxConn =
      if cnf.maxConn > glbGetConnLimit rlp ∧ 0 < (glbSetConnLimit ok rlp cnf.maxConn).1
      then (glbSetConnLimit ok rlp cnf.maxConn).1 else cnf.maxConn := by
  unfold cmdAdjust Rlimit.limits
  by_cases hn : cnf.nThreads = 0 <;> by_cases hm : cnf.maxConn > glbGetConnLimit rlp <;>
    by_cases hr : 0 < (glbSetConnLimit ok rlp cnf.maxConn).1 <;> by_cases hd : cnf.daemonize = true <;>
    simp [hn, hm, hr, hd]

/-- Unless it falls back, the limit is the one asked for and the files are there. -/
theorem kept_fits (h : NoOverflow val) (hset : val > glbGetConnLimit rlp) (hf : ¬ FallsBack ok rlp val) :
    (glbSetConnLimit ok rlp val).1 = val ∧
      (0 < val → val * 2 + reservedFiles ≤ (glbSetConnLimit ok rlp val).2.cur) := by
  have hexact := to_int_exact h
  have hu : 0 < val → (toRlim (val * 2 + reservedFiles) : Int) = val * 2 + reservedFiles := by
    intro hpos
    have := h.2
    exact to_rlim_nonneg (by omega) (by omega)
  unfold glbSetConnLimit
  dsimp only
  split
  · rename_i hle
    refine ⟨rfl, fun hpos => ?_⟩
    rw [hexact] at hle
    have := hu hpos
    change _ ≤ (rlp.cur : Int)
    omega
  · rename_i hgt
    split
    · refine ⟨rfl, fun hpos => ?_⟩
      rw [hexact]
      exact (hu hpos).ge
    · rename_i hfirst
      exact absurd ⟨hset, by omega, by simpa using hfirst⟩ hf

theorem fell_back (hf : FallsBack ok rlp val) :
    glbSetConnLimit ok rlp val = (glbGetConnLimit (raisedToMax ok rlp), raisedToMax ok rlp) := by
  unfold glbSetConnLimit
  dsimp only
  rw [if_neg (by have := hf.2.1; omega), if_neg (by simp [hf.2.2])]

/-- The connection limit that `glb_cmd_parse` arrives at is sized exactly if what was
asked for is affordable. -/
theorem conn_limit_sized_iff (hcur : rlp.cur ≤ rlp.max) (hmax : rlp.max < 2 ^ 64) :
    LimitFits ok rlp cnf ↔ Affordable ok rlp cnf.maxConn := by
  have hlt : rlp.cur < 2 ^ 64 := by omega
  have hadjust := adjust_max_conn ok rlp cnf
  constructor
  · intro h
    refine ⟨h.wrap, fun hset => ⟨h.overflow hset, fun hf => ⟨h.wrapAgain hf, fun hpos => ?_⟩⟩⟩
    by_cases hget : 0 < glbGetConnLimit (raisedToMax ok rlp)
    · exact .inl hget
    · have hfits := h.fits
      rw [hadjust, cmdRlimit, if_pos hset, fell_back hf] at hfits
      dsimp only at hfits
      rw [if_neg (fun hand => hget hand.2), Int.mul_comm] at hfits
      exact .inr (hfits hpos)
  · rintro ⟨hwrap, hset⟩
    refine ⟨fun h => (hset h).1, hwrap, fun hf => ((hset hf.1).2 hf).1, ?_⟩
    rw [hadjust, cmdRlimit]
    by_cases hgt : cnf.maxConn > glbGetConnLimit rlp
    · obtain ⟨hno, hback⟩ := hset hgt
      rw [if_pos hgt]
      by_cases hf : FallsBack ok rlp cnf.maxConn
      · obtain ⟨hagain, hone⟩ := hback hf
        rw [fell_back hf]
        dsimp only
        have hle := get_limit_le hagain (raised_lt ok hlt)
        split
        · exact fun _ => hle
        · rename_i hnot
          intro hpos
          have hlast := (hone hpos).resolve_left (fun hget => hnot ⟨hgt, hget⟩)
          rw [Int.mul_comm]
          exact hlast
      · obtain ⟨hsame, hfit⟩ := kept_fits hno hgt hf
        rw [hsame, ite_self, Int.mul_comm]
        exact hfit
    · rw [if_neg (fun hand => hgt hand.1), if_neg hgt]
      intro _
      have := get_limit_le hwrap hlt
      omega

/-- What `glb_cnf_init` and one `-m` option leave to be adjusted. -/
def asked (rlp : Rlimit) (ok : SetRlimit) (val : Int) : CmdCnf :=
  { glbCnfInit (rlp.limits ok) (.defaults .least) with maxConn := val }

/-- A thousand connections under a limit of 1024 files that can be raised to 4096. -/
theorem conn_limit_raised : LimitFits ⟨false, true⟩ ⟨1024, 4096⟩ (asked ⟨1024, 4096⟩ ⟨false, true⟩ 1000) := by
  refine (conn_limit_sized_iff (by decide) (by decide)).mpr ?_
  refine ⟨by decide, fun _ => ⟨by decide, fun _ => ⟨by decide, fun _ => .inl (by decide)⟩⟩⟩

/-- A limit of 38 files that cannot be raised leaves room for no connection, and the
hundred that were asked for stay. A limit below 37 wraps around, and a request of
`INT_MAX` overflows. -/
theorem conn_limit_kept_too_large :
    (cmdAdjust ((⟨38, 38⟩ : Rlimit).limits ⟨false, false⟩) (asked ⟨38, 38⟩ ⟨false, false⟩ 100)).maxConn = 100 ∧
      (cmdRlimit ⟨false, false⟩ ⟨38, 38⟩ 100).cur = 38 ∧
      ¬ LimitFits ⟨false, false⟩ ⟨38, 38⟩ (asked ⟨38, 38⟩ ⟨false, false⟩ 100) ∧
      (∀ ok cnf, ¬ LimitFits ok ⟨20, 20⟩ cnf) ∧
      ¬ LimitFits ⟨true, true⟩ ⟨1024, 4096⟩ (asked ⟨1024, 4096⟩ ⟨true, true⟩ (2 ^ 31 - 1)) := by
  refine ⟨by decide, by decide, fun h => ?_, fun ok cnf h => ?_, fun h => ?_⟩
  · have := h.fits (by decide)
    revert this
    decide
  · have := h.wrap
    revert this
    decide
  · have := h.overflow (by decide)
    revert this
    decide

end Glb.Proofs.Limits
