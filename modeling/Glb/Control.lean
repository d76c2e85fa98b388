import Glb.Pool
import Glb.Lib.CBuffer

namespace Glb
open Function

/-- `CTRL_MAX`, that is `GLB_MAX_CTRL_CONN`. -/
def ctrlMax : Nat := 32

/-- An entry of `ctrl->fds`. The only event asked for and looked at is `POLLIN`. -/
structure CtrlFd where
  fd : Fd
  events : Bool
  revents : Bool
  deriving DecidableEq, Repr

/-- `glb_ctrl_t` as far as its table goes. -/
structure CtrlThread where
  fifo : Fd
  inetSock : Fd
  inetFd : Int
  fdMax : Int
  fds : Nat → CtrlFd

/-- How a step ends that does not go on: an index outside the array, a failed assertion
or `abort ()`, and what no kernel does. Assertions are compiled in here. -/
inductive CtrlFault where
  | index (i : Int)
  | abort
  | kernel
  deriving DecidableEq, Repr

namespace CtrlThread

def fdAt (c : CtrlThread) (i : Int) : Except CtrlFault CtrlFd :=
  if 0 ≤ i ∧ i < ctrlMax then .ok (c.fds i.toNat) else .error (.index i)

def setFd (c : CtrlThread) (i : Int) (x : CtrlFd) : Except CtrlFault CtrlThread :=
  if 0 ≤ i ∧ i < ctrlMax then .ok { c with fds := update c.fds i.toNat x } else .error (.index i)

def setEvents (c : CtrlThread) (i : Int) (events : Bool) : Except CtrlFault CtrlThread := do
  let x ← c.fdAt i
  c.setFd i { x with events := events }

end CtrlThread

def ctrlAddClient (c : CtrlThread) (fd : Fd) : Except CtrlFault CtrlThread :=
  if c.fdMax < ctrlMax then do
    let c ← c.setFd c.fdMax ⟨fd, true, false⟩
    let c := { c with fdMax := c.fdMax + 1 }
    if c.fdMax = (ctrlMax : Int) then c.setEvents c.inetFd false else pure c
  else .error .abort

/-- The loop of `ctrl_del_client` with `n` indices left from `idx` on. -/
def ctrlDelLoop (fd : Fd) : Nat → Int → CtrlThread → Except CtrlFault CtrlThread
  | 0, _, c => .ok c
  | n + 1, idx, c => do
    let x ← c.fdAt idx
    if fd = x.fd then
      let c := { c with fdMax := c.fdMax - 1 }
      let last ← c.fdAt c.fdMax
      let c ← c.setFd idx last
      c.setFd c.fdMax ⟨0, false, false⟩
    else ctrlDelLoop fd n (idx + 1) c

def ctrlDelClient (c : CtrlThread) (fd : Fd) : Except CtrlFault CtrlThread :=
  if c.fdMax ≤ ctrlMax ∧ 1 < c.fdMax then do
    let c ← ctrlDelLoop fd (c.fdMax - 1).toNat 1 c
    if c.fdMax < ctrlMax then c.setEvents c.inetFd true else .error .abort
  else .error .abort

/-- What `ctrl_handle_request` does to the table: nothing if the request was served, or
the client goes because `read ()` ended with `ret`. -/
inductive ReqOut where
  | served
  | closed (ret : Int)
  deriving DecidableEq, Repr

/-- The scan of `ctrl_thread` from `fd` on, with `n` indices left up to `CTRL_MAX`, the
last one that its bound lets through. -/
def ctrlScan (req : Nat → ReqOut) : Nat → Int → CtrlThread → Except CtrlFault CtrlThread
  | 0, _, c => .ok c
  | n + 1, fd, c =>
    if fd ≤ c.fdMax then do
      let x ← c.fdAt fd
      if x.revents then
        if fd = c.inetFd then .error .abort
        else
          match req fd.toNat with
          | .served => ctrlScan req n (fd + 1) c
          | .closed ret => do
            let c ← ctrlDelClient c x.fd
            if ret ≠ 0 then pure c else ctrlScan req n (fd + 1) c
      else ctrlScan req n (fd + 1) c
    else pure c

/-- What one turn of the loop in `ctrl_thread` meets: what `poll ()` returns and reports,
the descriptor from `accept ()`, and what becomes of the request at each index. -/
structure CtrlTurn where
  ret : Int
  revents : Nat → Bool
  client : Fd
  req : Nat → ReqOut

/-- `poll ()` reports on the entries it is given, and only what is asked for. -/
def CtrlThread.polled (c : CtrlThread) (revents : Nat → Bool) : CtrlThread :=
  { c with fds := fun i =>
      if i < c.fdMax then { c.fds i with revents := revents i && (c.fds i).events } else c.fds i }

/-- The kernel hands out descriptors that are not open. -/
def CtrlThread.fresh (c : CtrlThread) (fd : Fd) : Bool :=
  (List.range ctrlMax).all fun i => i < c.fdMax → (c.fds i).fd ≠ fd

def ctrlAccept (c : CtrlThread) (client : Fd) : Except CtrlFault CtrlThread :=
  if client < 0 then pure c
  else if c.fresh client then ctrlAddClient c client
  else .error .kernel

/-- One turn of the loop in `ctrl_thread`. -/
def ctrlTurn (c : CtrlThread) (t : CtrlTurn) : Except CtrlFault CtrlThread :=
  if t.ret ≤ 0 then pure c
  else
    let c := c.polled t.revents
    if c.inetSock > 0 then do
      let x ← c.fdAt c.inetFd
      if x.revents then ctrlAccept c t.client else ctrlScan t.req (ctrlMax + 1) 0 c
    else ctrlScan t.req (ctrlMax + 1) 0 c

/-- `glb_ctrl_create`, given that the allocation and the thread's start succeed. -/
def glbCtrlCreate (fifo sock : Fd) (listens : Bool) : Option CtrlThread :=
  let zero : Nat → CtrlFd := fun _ => ⟨0, false, false⟩
  if fifo ≤ 0 ∧ sock ≤ 0 then none
  else if sock ≠ 0 ∧ ¬ listens then none
  else if fifo > 0 then
    if sock > 0 then
      some ⟨fifo, sock, 1, 2, update (update zero 0 ⟨fifo, true, false⟩) 1 ⟨sock, true, false⟩⟩
    else some ⟨fifo, sock, -1, 1, update zero 0 ⟨fifo, true, false⟩⟩
  else some ⟨fifo, sock, 0, 1, update zero 0 ⟨sock, true, false⟩⟩

/-- `BUFSIZ`. -/
def bufsiz : Nat := 8192

/-- What `read ()` answers: the bytes it has written, none for end of file, or an
error. -/
inductive ReadOut where
  | data (bytes : List Char)
  | fail (errno : Int)
  deriving DecidableEq, Repr

/-- The variables of the loop in `ctrl_handle_request`, with where each call was to
write. -/
structure Reading where
  req : List Char
  reqSize : Nat
  ret : Int
  errno : Int
  calls : List (Nat × ReadOut)
  deriving DecidableEq, Repr

def Reading.start (errno : Int) : Reading := ⟨List.replicate bufsiz '\x00', 0, 0, errno, []⟩

/-- One `read (fd, req + req_size, BUFSIZ)`. A call that succeeds leaves `errno`
alone. -/
def readCall (s : Reading) (out : ReadOut) : Reading :=
  let s := { s with calls := s.calls ++ [(s.reqSize, out)] }
  match out with
  | .data bytes =>
    { s with
      req := Lib.CBuffer.overlay s.req s.reqSize bytes
      reqSize := s.reqSize + bytes.length
      ret := bytes.length }
  | .fail errno => { s with ret := -1, errno := errno }

/-- The loop, and whether it has ended with the answers given. -/
def readLoop : List ReadOut → Reading → Reading × Bool
  | [], s => (s, false)
  | out :: outs, s =>
    let s := readCall s out
    if s.errno = EINTR then readLoop outs s else (s, true)

/-- The client is taken for gone. -/
def Reading.gone (s : Reading) : Bool := s.reqSize = 0 || s.ret < 0

end Glb
