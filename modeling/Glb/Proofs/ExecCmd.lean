import Glb.Exec
import Glb.Proofs.AddrText

namespace Glb.Proofs.ExecCmd
open Lib.CBuffer Lib.Printf AddrText

variable {cmd host : CStr}

/-- The command with the host and the port as its first argument. -/
def execCmd (cmd host : CStr) (port : UInt16) : CStr :=
  cmd.takeWhile (· ≠ ' ') ++ (' ' :: host ++ ':' :: decimal 0 port.toNat) ++ cmd.dropWhile (· ≠ ' ')

theorem take_take_while (p : Char → Bool) (s : CStr) : s.take (s.takeWhile p).length = s.takeWhile p :=
  (List.prefix_iff_eq_take.mp (List.takeWhile_prefix p)).symm

theorem drop_take_while (p : Char → Bool) (s : CStr) : s.drop (s.takeWhile p).length = s.dropWhile p := by
  apply (List.append_right_inj (s.takeWhile p)).mp
  rw [List.takeWhile_append_dropWhile]
  nth_rewrite 1 [← take_take_while p s]
  exact List.take_append_drop _ _

/-- The block holds what it is meant to hold, in the memory that was allocated. -/
def Built (junk : Nat → Char) (cmd host : CStr) (port : UInt16) : Prop :=
  ∃ block, execCreateCmd (some junk) cmd host port = some (some block) ∧
    block.length = execRetLen cmd host ∧ read block = some (execCmd cmd host port)

/-- The three writes, over memory of any size. -/
theorem writes_behind (pre addr post b : List Char) :
    (do let b ← memcpy b 0 pre
        let b ← memcpy b pre.length (addr ++ ['\x00'])
        memcpy b (pre.length + addr.length) (post ++ ['\x00'])) =
      if (pre ++ addr ++ post).length + 1 ≤ b.length then
        some (pre ++ addr ++ post ++ '\x00' :: b.drop ((pre ++ addr ++ post).length + 1))
      else none := by
  simp only [List.length_append, Option.bind_eq_bind]
  have hfirst := memcpy_behind [] b pre
  rw [List.nil_append, List.length_nil, List.nil_append] at hfirst
  have hsecond : memcpy (pre ++ b.drop pre.length) pre.length (addr ++ ['\x00']) =
      if addr.length + 1 ≤ b.length - pre.length then
        some (pre ++ addr ++ '\x00' :: b.drop (pre.length + (addr.length + 1)))
      else none := by
    rw [memcpy_behind]
    simp
  have hthird := memcpy_behind (pre ++ addr) ('\x00' :: b.drop (pre.length + (addr.length + 1))) (post ++ ['\x00'])
  simp only [List.length_append, List.length_drop, List.length_cons, List.length_nil] at hthird
  by_cases hfit : pre.length + addr.length + post.length + 1 ≤ b.length
  · rw [if_pos hfit, hfirst, if_pos (by omega), Option.bind_some, hsecond, if_pos (by omega), Option.bind_some,
      hthird, if_pos (by omega)]
    have hdrop : ('\x00' :: b.drop (pre.length + (addr.length + 1))).drop (post.length + (0 + 1)) =
        b.drop (pre.length + addr.length + post.length + 1) := by
      rw [Nat.zero_add, List.drop_succ_cons, List.drop_drop]
      congr 1
      omega
    rw [hdrop]
    simp only [List.append_assoc, List.singleton_append]
  · rw [if_neg hfit, hfirst]
    by_cases hpre : pre.length ≤ b.length
    · rw [if_pos hpre, Option.bind_some, hsecond]
      by_cases haddr : addr.length + 1 ≤ b.length - pre.length
      · rw [if_pos haddr, Option.bind_some, hthird, if_neg (by omega)]
      · rw [if_neg haddr, Option.bind_none]
    · rw [if_neg hpre, Option.bind_none]

/-- What is built fits where the memory is large enough for it, and nothing is built
otherwise. -/
theorem exec_create_cmd (junk : Nat → Char) (cmd host : CStr) (port : UInt16) :
    execCreateCmd (some junk) cmd host port =
      if (execCmd cmd host port).length + 1 ≤ execRetLen cmd host then
        some (some (execCmd cmd host port ++ '\x00' ::
          ((List.range (execRetLen cmd host)).map junk).drop ((execCmd cmd host port).length + 1)))
      else none := by
  have hwrites := writes_behind (cmd.takeWhile (· ≠ ' ')) (' ' :: host ++ ':' :: decimal 0 port.toNat)
    (cmd.dropWhile (· ≠ ' ')) ((List.range (execRetLen cmd host)).map junk)
  rw [List.length_map, List.length_range] at hwrites
  unfold execCreateCmd
  dsimp only
  rw [take_take_while, drop_take_while]
  have hret := congrArg (Option.bind · fun ret => some (some ret)) hwrites
  simp only [Option.bind_eq_bind, Option.bind_assoc] at hret ⊢
  rw [hret, execCmd]
  split
  · rfl
  · rfl

theorem exec_cmd_length (cmd host : CStr) (port : UInt16) :
    (execCmd cmd host port).length = cmd.length + host.length + 2 + (decimal 0 (port.toNat : Int)).length := by
  have hcmd := congrArg List.length (List.takeWhile_append_dropWhile (p := (· ≠ ' ')) (l := cmd))
  rw [List.length_append] at hcmd
  simp only [execCmd, List.length_append, List.length_cons]
  omega

theorem exec_cmd_plain (hcmd : '\x00' ∉ cmd) (hhost : '\x00' ∉ host) (port : UInt16) :
    '\x00' ∉ execCmd cmd host port := by
  intro hc
  simp only [execCmd, List.mem_append, List.mem_cons] at hc
  rcases hc with (hc | (hc | hc) | hc | hc) | hc
  · exact hcmd (List.takeWhile_subset _ hc)
  · cases hc
  · exact hhost hc
  · cases hc
  · have hdigit := decimal_digit hc
    cases hdigit
  · exact hcmd ((List.dropWhile_suffix _).mem hc)

/-- `exec_create_cmd` builds the right command within its allocation exactly if the port
has at most four digits: the memory is one byte short of a fifth. -/
theorem exec_cmd_built_iff (hcmd : '\x00' ∉ cmd) (hhost : '\x00' ∉ host) (junk : Nat → Char) (port : UInt16) :
    Built junk cmd host port ↔ port.toNat < 10000 := by
  have hlen := exec_cmd_length cmd host port
  have hdigits : (decimal 0 (port.toNat : Int)).length ≤ 4 ↔ port.toNat < 10000 := by
    rw [decimal_digits]
    exact Nat.length_toDigits_le_iff (by decide) (by decide)
  have hfit : (execCmd cmd host port).length + 1 ≤ execRetLen cmd host ↔ port.toNat < 10000 := by
    rw [← hdigits, hlen, execRetLen]
    omega
  rw [← hfit]
  constructor
  · rintro ⟨block, hret, _⟩
    by_contra hlong
    rw [exec_create_cmd, if_neg hlong] at hret
    cases hret
  · intro hle
    refine ⟨_, by rw [exec_create_cmd, if_pos hle], ?_, read_terminated (exec_cmd_plain hcmd hhost port) _⟩
    simp only [List.length_append, List.length_cons, List.length_drop, List.length_map, List.length_range]
    omega

/-- A check of a server at port 80. -/
theorem exec_cmd_built_http : Built (fun _ => 'x') ['p', ' ', '-', 'v'] ['h'] 80 :=
  (exec_cmd_built_iff (by decide) (by decide) _ 80).mpr (by decide)

/-- Port 10000 is one byte too long. -/
theorem exec_cmd_overrun :
    (execCmd ['p', ' ', '-', 'v'] ['h'] 10000).length + 1 = execRetLen ['p', ' ', '-', 'v'] ['h'] + 1 ∧
      ¬ Built (fun _ => 'x') ['p', ' ', '-', 'v'] ['h'] 10000 := by
  have hnone : execCreateCmd (some fun _ => 'x') ['p', ' ', '-', 'v'] ['h'] 10000 = none := by decide +kernel
  refine ⟨by decide +kernel, ?_⟩
  rintro ⟨block, hret, _⟩
  rw [hnone] at hret
  cases hret

end Glb.Proofs.ExecCmd
