import Mathlib.Tactic.Common

namespace Glb

inductive PipeEnd where
  | read
  | write
  deriving DecidableEq, Repr

/-- `int[2]`, under `PIPE_READ` and `PIPE_WRITE`. -/
structure PipeEnds (α : Type) where
  read : α
  write : α
  deriving DecidableEq, Repr

def PipeEnds.get (p : PipeEnds α) : PipeEnd → α
  | .read => p.read
  | .write => p.write

def PipeEnds.set (p : PipeEnds α) (e : PipeEnd) (x : α) : PipeEnds α :=
  match e with
  | .read => { p with read := x }
  | .write => { p with write := x }

/-- A `FILE*` that is not `NULL`: one that the caller had there before, or one over an end
of the stream's pipe. -/
inductive File where
  | callers
  | over (e : PipeEnd)
  deriving DecidableEq, Repr

/-- `std_in`, `std_out` or `std_err` as it is passed: `NULL`, or where a stream is to be
stored, with what stands there. -/
inductive StreamArg where
  | null
  | empty
  | held
  deriving DecidableEq, Repr

def StreamArg.file : StreamArg → Option (Option File)
  | .null => none
  | .empty => some none
  | .held => some (some .callers)

/-- One of the three streams of a process. The entries of its pipe variable are set or
`-1`, and the variable itself has no value before its declaration is run. A descriptor
is known by its end of the pipe, and counted each time it is opened or closed. -/
structure StdStream where
  file : Option (Option File)
  pipeFds : Option (PipeEnds Bool)
  opened : PipeEnds Nat
  closed : PipeEnds Nat
  deriving DecidableEq, Repr

/-- What has no defined outcome: to go through `NULL` to a stream, to read a pipe variable
that is not set. The last is to close a stream of the caller's. -/
inductive ProcFault where
  | nullStream
  | unset
  | foreign
  deriving DecidableEq, Repr

/-- The error number of a call that has failed. -/
structure Errno where
  val : Int
  nonzero : val ≠ 0

/-- What the calls of `proc_pipe_fds` return: whether the child's descriptor is open here,
error numbers or 0, and whether there is a stream. -/
structure PipeCalls where
  isOpen : Bool
  addclose : Int
  pipe : Option Errno
  fdopen : Bool
  adddup2 : Int

/-- What the calls of `glb_proc_start` return. What the two that destroy return is only
logged. -/
structure ProcCalls where
  attrInit : Int
  setflags : Int
  factInit : Int
  stdIn : PipeCalls
  stdOut : PipeCalls
  stdErr : PipeCalls
  spawn : Int
  child : Int

namespace StdStream

def entry (a : StreamArg) : StdStream := ⟨a.file, none, ⟨0, 0⟩, ⟨0, 0⟩⟩

/-- `int pipe_fds[2] = { -1, -1 }`. -/
def declare (s : StdStream) : StdStream := { s with pipeFds := some ⟨false, false⟩ }

def pipe (s : StdStream) : StdStream :=
  { s with pipeFds := some ⟨true, true⟩, opened := ⟨s.opened.read + 1, s.opened.write + 1⟩ }

def close (s : StdStream) (e : PipeEnd) : StdStream := { s with closed := s.closed.set e (s.closed.get e + 1) }

def setFile (s : StdStream) (f : Option File) : Except ProcFault StdStream :=
  match s.file with
  | none => .error .nullStream
  | some _ => .ok { s with file := some f }

/-- `fclose (*stream); *stream = NULL`. -/
def fclose (s : StdStream) : File → Except ProcFault StdStream
  | .callers => .error .foreign
  | .over e => (s.close e).setFile none

/-- `if (pipe_fds[e] >= 0) close (pipe_fds[e])`. -/
def closeEnd (s : StdStream) (e : PipeEnd) : Except ProcFault StdStream :=
  match s.pipeFds with
  | none => .error .unset
  | some p => .ok (if p.get e then s.close e else s)

/-- The stream is closed, or else its descriptor. -/
def release (s : StdStream) (e : PipeEnd) : Except ProcFault StdStream :=
  match s.file with
  | none => .error .nullStream
  | some (some f) => s.fclose f
  | some none => s.closeEnd e

end StdStream

/-- The end of a pipe that the parent has, which reads or writes. -/
def parentEnd (read : Bool) : PipeEnd := if read then .read else .write

def childEnd (read : Bool) : PipeEnd := if read then .write else .read

/-- What stands behind `cleanup` in `proc_pipe_fds`. -/
def pipeCleanup (s : StdStream) : Except ProcFault StdStream :=
  let s := (s.close .read).close .write
  let s := { s with pipeFds := some ⟨false, false⟩ }
  match s.file with
  | none => .error .nullStream
  | some (some f) => s.fclose f
  | some none => .ok s

/-- `proc_pipe_fds`. Where there is no stream the error is still 0. -/
def procPipeFds (c : PipeCalls) (read : Bool) (s : StdStream) : Except ProcFault (Int × StdStream) :=
  let err := if c.isOpen then c.addclose else 0
  if err ≠ 0 then .ok (err, s)
  else
    match c.pipe with
    | some errno => .ok (errno.val, s)
    | none => do
      let s ← s.pipe.setFile (if c.fdopen then some (.over (parentEnd read)) else none)
      if !c.fdopen then
        let s ← pipeCleanup s
        return (0, s)
      else if c.adddup2 ≠ 0 then
        let s ← pipeCleanup s
        return (c.adddup2, s)
      else return (0, s)

/-- The pipe of a stream, if that is requested. -/
def procStream (c : PipeCalls) (read : Bool) (s : StdStream) : Except ProcFault (Int × StdStream) :=
  if s.file = none then .ok (0, s) else procPipeFds c read s

/-- The variables of `glb_proc_start`, and whether there is a child. -/
structure ProcStart where
  pid : Int
  spawned : Bool
  stdIn : StdStream
  stdOut : StdStream
  stdErr : StdStream
  deriving DecidableEq, Repr

/-- The child's ends of the pipes are closed in the parent. -/
def closeChildEnds (s : ProcStart) : Except ProcFault ProcStart := do
  let stdIn ← s.stdIn.closeEnd .read
  let stdOut ← s.stdOut.closeEnd .write
  let stdErr ← s.stdErr.closeEnd .write
  return { s with stdIn, stdOut, stdErr }

/-- From `cleanup_stdin` on. -/
def cleanupStdin (s : ProcStart) : Except ProcFault ProcStart := do
  let stdIn ← s.stdIn.release .write
  closeChildEnds { s with stdIn }

/-- From `cleanup_stdout` on. -/
def cleanupStdout (s : ProcStart) : Except ProcFault ProcStart := do
  let stdOut ← s.stdOut.release .read
  cleanupStdin { s with stdOut }

/-- From `posix_spawnp` on. -/
def procSpawn (c : ProcCalls) (s : ProcStart) : Except ProcFault (Int × ProcStart) :=
  if c.spawn ≠ 0 then do
    let stdErr ← s.stdErr.release .read
    let s ← cleanupStdout { s with pid := 0, stdErr }
    return (c.spawn, s)
  else do
    let s ← closeChildEnds { s with pid := c.child, spawned := true }
    return (0, s)

/-- The three streams in turn. Each error goes to a label of its own. -/
def procStreams (c : ProcCalls) (s : ProcStart) : Except ProcFault (Int × ProcStart) := do
  let (err, stdIn) ← procStream c.stdIn false s.stdIn.declare
  let s := { s with stdIn }
  if err ≠ 0 then return (err, s)
  let (err, stdOut) ← procStream c.stdOut true s.stdOut.declare
  let s := { s with stdOut }
  if err ≠ 0 then
    -- the declaration of `stderr_pipe` is jumped over
    let s ← cleanupStdin s
    return (err, s)
  let (err, stdErr) ← procStream c.stdErr true s.stdErr.declare
  let s := { s with stdErr }
  if err ≠ 0 then
    let s ← cleanupStdout s
    return (err, s)
  procSpawn c s

def glbProcStart (c : ProcCalls) (stdIn stdOut stdErr : StreamArg) : Except ProcFault (Int × ProcStart) :=
  let s : ProcStart := ⟨0, false, .entry stdIn, .entry stdOut, .entry stdErr⟩
  if c.attrInit ≠ 0 then .ok (c.attrInit, s)
  else if c.setflags ≠ 0 then .ok (c.setflags, s)
  else if c.factInit ≠ 0 then .ok (c.factInit, s)
  else procStreams c s

/-- The call in `exec_thread`: it asks for no `std_err`. -/
def execStart (c : ProcCalls) : Except ProcFault (Int × ProcStart) := glbProcStart c .empty .empty .null

end Glb
