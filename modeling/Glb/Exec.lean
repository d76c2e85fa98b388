import Glb.Lib.Printf
import Glb.Others

namespace Glb
open Lib.CBuffer Lib.Printf

section cmd

/-- `ret_len` of `exec_create_cmd`. -/
def execRetLen (cmd host : CStr) : Nat := cmd.length + host.length + 7

/-- `exec_create_cmd`, where `malloc` is what the memory it gets holds. There is no
result after a write past the end of that memory. -/
def execCreateCmd (malloc : Option (Nat → Char)) (cmd host : CStr) (port : UInt16) : Option (Option (List Char)) :=
  match malloc with
  | none => some none
  | some junk => do
    let ret := (List.range (execRetLen cmd host)).map junk
    let cmdOffset := (cmd.takeWhile (· ≠ ' ')).length
    let addr := ' ' :: host ++ ':' :: decimal 0 port.toNat
    let ret ← memcpy ret 0 (cmd.take cmdOffset)
    -- `sprintf ()` ends its text too
    let ret ← memcpy ret cmdOffset (addr ++ ['\x00'])
    let ret ← memcpy ret (cmdOffset + addr.length) (cmd.drop cmdOffset ++ ['\x00'])
    some ret

end cmd

section thread

/-- `res_size` of `exec_thread`. -/
def execResSize : Nat := 4096

/-- `exec_thread` in its loop: what its process has written and it has not read, and
`errn`, `result` and `join` of its context. -/
structure ExecThread where
  unread : CStr
  errn : Int
  result : WdogCheck
  join : Bool

/-- What happens on a poll: whether it is sent, what the process has written when
`fgets ()` returns and how long that took, and `errno` if there is nothing to read and
`glb_terminate` is not set. -/
structure ExecAnswer where
  sent : Bool
  latency : ℚ
  text : CStr
  errn : Int

def ExecThread.start : ExecThread := ⟨[], 0, .zero, false⟩

/-- The thread behind its loop, ready to be joined. -/
def ExecThread.exit (s : ExecThread) (errn : Int) : ExecThread :=
  { s with errn := errn, result := .zero, join := true }

/-- An iteration of the loop of `exec_thread`. There is none behind the loop. -/
def execPoll (libc : Libc) (s : ExecThread) (a : ExecAnswer) : Option ExecThread :=
  if s.join then none
  else if !a.sent then some (s.exit EIO)
  else
    let (resBuf, unread) := fgets (execResSize - 1) (s.unread ++ a.text)
    let s := { s with unread := unread }
    if resBuf = [] then
      some (if a.errn ≠ 0 then s.exit a.errn
        else { s with errn := 0, result := .zero })
    else
      match execCheck libc a.latency (resBuf.takeWhile (· ≠ '\x00')) with
      | none => some (s.exit EPROTO)
      | some r => some { s with errn := 0, result := r }

end thread

end Glb
