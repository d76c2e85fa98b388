import Glb.Daemon

namespace Glb

/-- One entry of what `epoll_wait` returns. -/
structure EpollEvent where
  fd : Fd
  events : BitVec 32
  deriving DecidableEq, Repr

/-- What a call made by `pool_handle_events` reads from outside. -/
structure EventEnv where
  recv : RecvOut
  send : SendOut
  complete : CompleteEnv
  ctl : CtlEnv

/-- Where `pool_handle_events` is. In the epoll build it is at the head of its loop
with some events left, or has tried to read for an event. In the poll build it has
yet to look at slot zero, is at the head of its loop, or has tried to read for the
slot at the index, which is ready for `revents`. -/
inductive Cursor where
  | event (evs : List EpollEvent)
  | eventWrite (ev : EpollEvent) (evs : List EpollEvent)
  | top (count : Nat)
  | slot (idx count : Nat)
  | slotWrite (idx count : Nat) (revents : BitVec 32)
  | returned
  deriving DecidableEq, Repr

structure EventLoop where
  world : World
  cursor : Cursor

/-- `pool_fds_wait` in the poll build: what `poll ()` leaves in the slots, and how many
it has found ready. -/
def poolFdsWait (w : World) (revents : Fd → BitVec 32) : World × Nat :=
  let pollfds := w.fdset.pollfds.map fun x => { x with revents := revents x.fd }
  ({ w with fdset := { w.fdset with pollfds := pollfds } }, pollfds.countP fun x => x.revents ≠ 0)

/-- `pool_thread` in the poll build when `poll ()` has returned. -/
def EventLoop.waited (w : World) (revents : Fd → BitVec 32) : EventLoop :=
  ⟨(poolFdsWait w revents).1, .top (poolFdsWait w revents).2⟩

section loop
variable (build : Build) (cnf : Cnf)

/-- The first half of a loop body; a negative result ends the loop. -/
def handleReadable (w : World) (fd : Fd) (revents : BitVec 32) (next : Cursor) (env : EventEnv) :
    Option EventLoop :=
  if revents &&& poolFdRead ≠ 0 then do
    let w := { w with stats := { w.stats with pollReads := w.stats.pollReads + 1 } }
    let (w, ret) ← poolHandleRead build cnf w fd env.recv env.send
    some ⟨w, if ret < 0 then .returned else next⟩
  else some ⟨w, next⟩

/-- The second half. -/
def handleWritable (w : World) (fd : Fd) (revents : BitVec 32) (next : Cursor) (env : EventEnv) :
    Option EventLoop :=
  if revents &&& poolFdWrite ≠ 0 then do
    let w := { w with stats := { w.stats with pollWrites := w.stats.pollWrites + 1 } }
    let w ← poolHandleWrite build cnf w fd env.complete env.send
    some ⟨w, next⟩
  else some ⟨w, next⟩

/-- `pool_handle_events` from one call to the next. An index behind the table is
where `assert (idx < pool->fd_max)` fails. -/
def poolHandleEvents (s : EventLoop) (env : EventEnv) : Option EventLoop :=
  let w := s.world
  match s.cursor with
  | .event [] => some ⟨w, .returned⟩
  | .event (ev :: evs) =>
    if ev.events &&& poolFdRead ≠ 0 ∧ ev.fd = w.ctlRecv then
      (poolReadCtl build cnf w env.ctl).map (fun w => ⟨w, .returned⟩)
    else handleReadable build cnf w ev.fd ev.events (.eventWrite ev evs) env
  | .eventWrite ev evs => handleWritable build cnf w ev.fd ev.events (.event evs) env
  | .top count =>
    match w.fdset.pollfds[0]? with
    | none => none
    | some x =>
      if x.revents &&& poolFdRead ≠ 0 then
        (poolReadCtl build cnf w env.ctl).map (fun w => ⟨w, .returned⟩)
      else some ⟨w, .slot 1 count⟩
  | .slot idx count =>
    if count = 0 then some ⟨w, .returned⟩
    else
      match w.fdset.pollfds[idx]? with
      | none => none
      | some x =>
        if x.revents = 0 then some ⟨w, .slot (idx + 1) count⟩
        else
          -- some of the events may have been cleared earlier in the loop
          let revents := x.revents &&& x.events
          handleReadable build cnf w x.fd revents (.slotWrite idx count revents) env
  | .slotWrite idx count revents =>
    match w.fdset.pollfds[idx]? with
    | none => none
    | some x => handleWritable build cnf w x.fd revents (.slot (idx + 1) (count - 1)) env
  | .returned => none

end loop

/-- The descriptor that `pool_handle_read` or `pool_handle_write` is about to be
called on. -/
def EventLoop.call (s : EventLoop) : Option Fd :=
  match s.cursor with
  | .event (ev :: _) =>
    if ev.events &&& poolFdRead ≠ 0 ∧ ev.fd ≠ s.world.ctlRecv then some ev.fd else none
  | .eventWrite ev _ => if ev.events &&& poolFdWrite ≠ 0 then some ev.fd else none
  | .slot idx (_ + 1) => s.world.fdset.pollfds[idx]?.bind fun x =>
    if x.revents &&& x.events &&& poolFdRead ≠ 0 then some x.fd else none
  | .slotWrite idx _ revents => s.world.fdset.pollfds[idx]?.bind fun x =>
    if revents &&& poolFdWrite ≠ 0 then some x.fd else none
  | _ => none

end Glb
