import Glb.Lib.CondVar
import Glb.Pool

namespace Glb
open Lib.CondVar

/-- The threads that take `pool->lock`: any number of senders and the pool's own. -/
inductive CtlThread where
  | sender (id : Nat)
  | pool
  deriving DecidableEq, Repr

/-- Where a thread is in `pool_send_ctl`. A written ctl has a ticket; a sender
whose `write ()` failed goes on without one. -/
inductive SendPc where
  | out
  | entered (ctl : PoolCtl)
  | locked (ctl : PoolCtl)
  | written (ticket : Option Nat)
  | blocked (ticket : Option Nat)
  | returning (ticket : Option Nat)
  deriving DecidableEq, Repr

/-- Where the pool thread is in `pool_handle_ctl`. -/
inductive HandlePc where
  | polling
  | handling (ticket : Nat) (ctl : PoolCtl)
  | handled (ticket : Nat)
  | locked (ticket : Nat)
  | signalled
  deriving DecidableEq, Repr

/-- One pool's control channel: lock and condition, the pipe with its ctls, and
the threads that use them. -/
structure Channel where
  mon : Monitor CtlThread
  pipe : List (Nat × PoolCtl)
  senders : Nat → SendPc
  pool : HandlePc
  tickets : Nat

def Channel.init : Channel := ⟨.free, [], fun _ => .out, .polling, 0⟩

def Channel.goto (c : Channel) (id : Nat) (pc : SendPc) : Channel :=
  { c with senders := Function.update c.senders id pc }

/-- The steps of `pool_send_ctl`. A partial write, which aborts, is left out. -/
inductive SendStep where
  | call (ctl : PoolCtl)
  | lock
  | write (ok : Bool)
  | wait
  | wake
  | unlock
  deriving DecidableEq, Repr

def poolSendCtl (c : Channel) (id : Nat) (step : SendStep) : Option Channel :=
  match step, c.senders id with
  | .call ctl, .out => some (c.goto id (.entered ctl))
  | .lock, .entered ctl => do
    let mon ← c.mon.lock (.sender id)
    some { c.goto id (.locked ctl) with mon := mon }
  | .write true, .locked ctl =>
    some { c.goto id (.written (some c.tickets)) with
      pipe := c.pipe ++ [(c.tickets, ctl)], tickets := c.tickets + 1 }
  | .write false, .locked _ => some (c.goto id (.written none))
  | .wait, .written ticket => do
    let mon ← c.mon.wait (.sender id)
    some { c.goto id (.blocked ticket) with mon := mon }
  | .wake, .blocked ticket => do
    let mon ← c.mon.resume (.sender id)
    some { c.goto id (.returning ticket) with mon := mon }
  | .unlock, .returning _ => do
    let mon ← c.mon.unlock (.sender id)
    some { c.goto id .out with mon := mon }
  | _, _ => none

/-- The steps of the pool thread in `pool_handle_ctl`; the condition wakes whom it
likes. -/
inductive HandleStep where
  | read
  | handle
  | lock
  | signal (wakes : Option CtlThread)
  | unlock
  deriving DecidableEq, Repr

def poolHandleCtlStep (c : Channel) (step : HandleStep) : Option Channel :=
  match step, c.pool, c.pipe with
  | .read, .polling, (ticket, ctl) :: pipe => some { c with pool := .handling ticket ctl, pipe := pipe }
  | .handle, .handling ticket _, _ => some { c with pool := .handled ticket }
  | .lock, .handled ticket, _ => do
    let mon ← c.mon.lock .pool
    some { c with mon := mon, pool := .locked ticket }
  | .signal wakes, .locked _, _ => do
    let mon ← c.mon.signal wakes
    some { c with mon := mon, pool := .signalled }
  | .unlock, .signalled, _ => do
    let mon ← c.mon.unlock .pool
    some { c with mon := mon, pool := .polling }
  | _, _, _ => none

inductive ChannelOp where
  | send (id : Nat) (step : SendStep)
  | pool (step : HandleStep)
  deriving DecidableEq, Repr

def channelStep (c : Channel) : ChannelOp → Option Channel
  | .send id step => poolSendCtl c id step
  | .pool step => poolHandleCtlStep c step

end Glb
