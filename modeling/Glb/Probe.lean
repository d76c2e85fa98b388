import Glb.Lib.CondVar
import Glb.Wdog

namespace Glb
open Lib.CondVar

/-- The threads that take the lock of a backend thread's context. -/
inductive ProbeThread where
  | prober (id : Nat)
  | backend
  | watchdog (id : Nat)
  deriving DecidableEq, Repr

/-- Where a thread is in `glb_backend_probe`. `began` is how many results had been
stored when the call was made; `expired` has timed out and wants the lock back. -/
inductive ProbePc where
  | out
  | called (began : Nat)
  | locked (began : Nat)
  | counted (began : Nat)
  | signalled (began : Nat)
  | blocked (began : Nat)
  | expired
  | returning (res : WdogCheck)
  deriving DecidableEq, Repr

/-- Where the backend thread is in the main loop of `exec_thread`, with the check
that it has made and `errn`. -/
inductive ExecPc where
  | testing
  | polling
  | polled (r : WdogCheck) (errn : Int)
  | storing (r : WdogCheck) (errn : Int)
  | notified (r : WdogCheck) (errn : Int)
  | stored (errn : Int)
  | sleeping
  | leaving
  | cleared
  | gone
  deriving DecidableEq, Repr

/-- Where a watchdog thread is with a context: `quitting` has set the flag and not yet
signalled. -/
inductive WatchPc where
  | out
  | locked
  | quitting
  deriving DecidableEq, Repr

@[reducible] def PcOf : ProbeThread → Type
  | .prober _ => ProbePc
  | .backend => ExecPc
  | .watchdog _ => WatchPc

/-- The context that they share, with where each of them is. `stores` counts the
results that the backend thread has stored. -/
structure Probing where
  mon : Monitor ProbeThread
  result : WdogCheck
  waiting : UInt32
  quit : Bool
  join : Bool
  pc : (t : ProbeThread) → PcOf t
  stores : Nat

/-- The backend thread has told its creator that it is up, and goes into its loop. -/
def Probing.init : Probing where
  mon := ⟨some .backend, [], []⟩
  result := .zero
  waiting := 0
  quit := false
  join := false
  pc
    | .prober _ => .out
    | .backend => .testing
    | .watchdog _ => .out
  stores := 0

def Probing.goto (s : Probing) (t : ProbeThread) (pc : PcOf t) : Probing :=
  { s with pc := Function.update s.pc t pc }

inductive ProbeStep where
  | call
  | lock
  | test
  | signal (wakes : Option ProbeThread)
  | wait
  | timeout
  | wake
  | unlock
  deriving DecidableEq, Repr

/-- `glb_backend_probe`. The result is copied if the wait did not time out, before
anyone else has the lock. -/
def glbBackendProbe (s : Probing) (id : Nat) (step : ProbeStep) : Option Probing :=
  let t := ProbeThread.prober id
  match step, (s.pc t : ProbePc) with
  | .call, .out => some (s.goto t (.called s.stores))
  | .lock, .called began => do
    let mon ← s.mon.lock t
    some { s.goto t (.locked began) with mon := mon }
  | .test, .locked began =>
    if !s.quit && !s.join then some { s.goto t (.counted began) with waiting := s.waiting + 1 }
    else some (s.goto t (.returning .zero))
  | .signal wakes, .counted began => do
    let mon ← s.mon.signal wakes
    some { s.goto t (.signalled began) with mon := mon }
  | .wait, .signalled began => do
    let mon ← s.mon.wait t
    some { s.goto t (.blocked began) with mon := mon }
  | .timeout, .blocked _ => do
    let mon ← s.mon.signal (some t)
    some { s.goto t .expired with mon := mon }
  | .wake, .blocked _ => do
    let mon ← s.mon.resume t
    some { s.goto t (.returning s.result) with mon := mon }
  | .wake, .expired => do
    let mon ← s.mon.resume t
    some { s.goto t (.returning .zero) with mon := mon }
  | .unlock, .returning _ => do
    let mon ← s.mon.unlock t
    some { s.goto t .out with mon := mon }
  | _, _ => none

/-- The switch on `ctx->waiting`: nobody, one signal or a broadcast. -/
def execNotify (s : Probing) (wakes : Option ProbeThread) : Option (Monitor ProbeThread) :=
  if s.waiting = 0 then some s.mon
  else if s.waiting = 1 then s.mon.signal wakes
  else some s.mon.broadcast

inductive ExecStep where
  | test
  | poll (r : WdogCheck) (errn : Int)
  | lock
  | notify (wakes : Option ProbeThread)
  | store
  | wait
  | timeout
  | wake
  | clear
  | unlock
  deriving DecidableEq, Repr

/-- The main loop of `exec_thread` and what it does to the context behind it. -/
def execThread (s : Probing) (step : ExecStep) : Option Probing :=
  let t := ProbeThread.backend
  match step, (s.pc t : ExecPc) with
  | .test, .testing =>
    if s.quit then some (s.goto t .leaving)
    else do
      let mon ← s.mon.unlock t
      some { s.goto t .polling with mon := mon }
  | .poll r errn, .polling => some (s.goto t (.polled r errn))
  | .lock, .polled r errn => do
    let mon ← s.mon.lock t
    some { s.goto t (.storing r errn) with mon := mon }
  | .notify wakes, .storing r errn => do
    let mon ← execNotify s wakes
    some { s.goto t (.notified r errn) with mon := mon, waiting := 0 }
  | .store, .notified r errn =>
    some { s.goto t (.stored errn) with result := r, stores := s.stores + 1 }
  | .wait, .stored errn =>
    if errn = 0 then do
      let mon ← s.mon.wait t
      some { s.goto t .sleeping with mon := mon }
    else some (s.goto t .leaving)
  | .timeout, .sleeping => do
    let mon ← s.mon.signal (some t)
    some { s with mon := mon }
  | .wake, .sleeping => do
    let mon ← s.mon.resume t
    some { s.goto t .testing with mon := mon }
  | .clear, .leaving =>
    some { s.goto t .cleared with result := .zero, join := true, stores := s.stores + 1 }
  | .unlock, .cleared => do
    let mon ← s.mon.unlock t
    some { s.goto t .gone with mon := mon }
  | _, _ => none

inductive WatchStep where
  | lock
  | take
  | quit
  | signal (wakes : Option ProbeThread)
  | unlock
  deriving DecidableEq, Repr

/-- What `wdog_change_dst`, `wdog_copy_result` and `wdog_dst_cleanup` do to a context:
they may take the result and may tell the thread to quit. -/
def wdogThread (s : Probing) (id : Nat) (step : WatchStep) : Option Probing :=
  let t := ProbeThread.watchdog id
  match step, (s.pc t : WatchPc) with
  | .lock, .out => do
    let mon ← s.mon.lock t
    some { s.goto t .locked with mon := mon }
  | .take, .locked => some { s with result := { s.result with ready := false } }
  | .quit, .locked => some { s.goto t .quitting with quit := true }
  | .signal wakes, .quitting => do
    let mon ← s.mon.signal wakes
    some { s.goto t .locked with mon := mon }
  | .unlock, .locked => do
    let mon ← s.mon.unlock t
    some { s.goto t .out with mon := mon }
  | _, _ => none

inductive ProbeOp where
  | probe (id : Nat) (step : ProbeStep)
  | exec (step : ExecStep)
  | watch (id : Nat) (step : WatchStep)
  deriving DecidableEq, Repr

def probeStep (s : Probing) : ProbeOp → Option Probing
  | .probe id step => glbBackendProbe s id step
  | .exec step => execThread s step
  | .watch id step => wdogThread s id step

end Glb
