import Glb.Lib.CBuffer
import Glb.Parse
import Glb.Wdog

namespace Glb
open Lib.CBuffer

/-- What `exec_thread` makes of the line with which its process answers a poll. A
line that does not begin with a state is an error. -/
def execCheck (libc : Libc) (latency : ℚ) (resBuf : CStr) : Option WdogCheck :=
  let st := libc.strtol resBuf
  let state? : Option DstState :=
    if st.value = 0 then some .notfound
    else if st.value = 1 then some .notready
    else if st.value = 2 then some .avoid
    else if st.value = 3 then some .ready
    else none
  match state?, st.rest with
  | none, _ => none
  | some state, [] => some ⟨state, latency, none, 0, true⟩
  | some state, c :: others =>
    if isSpace c then
      some ⟨state, latency, if others.length > 0 then some (String.ofList others) else none,
        others.length, true⟩
    else none

/-- `d->result.others` as memory: the block that `realloc` gave last, and
`d->result.others_len`. -/
structure OthersBuf where
  block : Option (List Char)
  len : Nat
  deriving DecidableEq, Repr

/-- What one call of `wdog_copy_result` copies: the published result, whether memory
is to be had, and what new memory holds. -/
structure CopyIn where
  res : WdogCheck
  realloc : Bool
  junk : Char
  deriving DecidableEq, Repr

/-- The buffer after `wdog_copy_result` has adapted its size, and `changed_length`. To
reallocate to nothing is to free. -/
def wdogResizeOthers (c : CopyIn) (b : OthersBuf) : OthersBuf × Bool :=
  if b.len < c.res.othersLen || b.len > c.res.othersLen * 2 then
    if c.res.othersLen = 0 then (⟨none, 0⟩, true)
    else if c.realloc then
      (⟨some (resize c.junk c.res.othersLen (b.block.getD [])), c.res.othersLen⟩, true)
    else (⟨none, 0⟩, false)
  else (b, false)

/-- The string that `wdog_copy_result` hands to `strcpy`, if it does. -/
def wdogWritesOthers (c : CopyIn) (b : OthersBuf) : Option CStr :=
  if c.res.ready && c.res.state ≠ .notfound then
    let (b, changedLength) := wdogResizeOthers c b
    let others := c.res.others.map cstr
    if c.res.othersLen > 0 && b.len ≥ c.res.othersLen &&
        (changedLength || b.block.bind read ≠ others) then others
    else none
  else none

/-- What `wdog_copy_result` does to the buffer. There is no buffer after a copy past
its end. -/
def wdogCopyBuffer (b : OthersBuf) (c : CopyIn) : Option OthersBuf :=
  if c.res.ready && c.res.state ≠ .notfound then
    let buf := (wdogResizeOthers c b).1
    match wdogWritesOthers c b with
    | none => some buf
    | some s => (buf.block.bind (strcpy · s)).map (fun block => { buf with block := some block })
  else some b

end Glb
