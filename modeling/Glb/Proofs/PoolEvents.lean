import Glb.Proofs.PoolFrame

namespace Glb.Proofs.PoolEvents
open Lib.Window PoolFrame

variable {build : Build} {cnf : Cnf} {w w' : World} {b : Nat} {c : Conn}

def fill (d : ConnEnd) (bytes : List UInt8) : ConnEnd :=
  { d with total := d.total + bytes.length, buf := overwrite d.buf d.total bytes }

/-- Reading is turned off in front of an end without room. -/
def stall (c : Conn) (s : Side) : Conn :=
  if (side c s).total = poolBufSize then
    setSide c s.other { side c s.other with events := (side c s.other).events &&& ~~~poolFdRead }
  else c

theorem read_done_spec (hh : Held w b c) (s : Side)
    (h : poolReadDone build w (ptr b s) n = some w') : bare w' = bare (putConn w b (stall c s)) := by
  unfold poolReadDone at h
  simp only [deref_ptr hh.block, Option.bind_eq_bind, Option.bind_some, Option.bind_eq_some_iff,
    Option.some.injEq] at h
  obtain ⟨w1, h1, rfl⟩ := h
  unfold stall
  split at h1
  · rename_i ht
    rw [if_pos ht]
    simp only [hh.route s, Option.bind_some, deref_ptr hh.block, store_ptr hh.block] at h1
    have hset := set_events_bare h1
    exact hset
  · rename_i ht
    simp only [Option.some.injEq] at h1
    subst h1
    rw [if_neg ht, put_conn_same hh.block]
    rfl

def recvEv (b : Nat) (c : Conn) (s : Side) (bytes : List UInt8) : Ev :=
  .recv (ptr b s) (side c s.other).sock (side c s).total (poolBufSize - (side c s).total) bytes

/-- What reaches the buffer of an end. -/
def received (d : ConnEnd) (avail : List UInt8) : List UInt8 :=
  avail.take (poolBufSize - d.total)

/-- The connection after data was received for side `s`, before it is sent on. -/
def filled (c : Conn) (s : Side) (bytes : List UInt8) : Conn :=
  setSide c s (fill (side c s) bytes)

/-- The handlers follow `route_map`. -/
theorem read_routed (h : poolHandleRead build cnf w fd recv send = some x) : ∃ p, w.routeMap fd = some p := by
  unfold poolHandleRead at h
  obtain ⟨p, hp, _⟩ := Option.bind_eq_some_iff.mp h
  exact ⟨p, hp⟩

theorem write_routed (h : poolHandleWrite build cnf w fd env send = some w') :
    ∃ p, w.routeMap fd = some p := by
  unfold poolHandleWrite at h
  obtain ⟨p, hp, _⟩ := Option.bind_eq_some_iff.mp h
  exact ⟨p, hp⟩

/-- What `pool_handle_read` does on the descriptor opposite to side `s`. -/
inductive ReadFate (cnf : Cnf) (w : World) (b : Nat) (c : Conn) (s : Side) (recv : RecvOut)
    (send : SendOut) : World → Prop
  | full (h : poolBufSize ≤ (side c s).total) : ReadFate cnf w b c s recv send w
  | nothing (h : (side c s).total < poolBufSize) :
    ReadFate cnf w b c s recv send (logs w [recvEv b c s []])
  | closed (h : (side c s).total < poolBufSize) (hf : s = .dst ∨ c.dst.kind ≠ .incomplete) :
    ReadFate cnf w b c s recv send (gone cnf (logs w [recvEv b c s []]) b c true)
  | detach (h : (side c s).total < poolBufSize) (hs : s = .inc) (hi : c.dst.kind = .incomplete) :
    ReadFate cnf w b c s recv send (detached (logs w [recvEv b c s []]) c)
  | passed (avail bytes : List UInt8) (hr : recv = .data avail)
    (hb : received (side c s) avail = bytes) (h0 : 0 < bytes.length)
    (h : (side c s).total + bytes.length ≤ poolBufSize)
    (hs : Spares (side (filled c s bytes) s) send) :
    ReadFate cnf w b c s recv send (putConn (logs w
      [recvEv b c s bytes, sendEv b (filled c s bytes) s send])
      b (stall (sentConn (filled c s bytes) s send false) s))
  | broken (bytes : List UInt8) (h0 : 0 < bytes.length)
    (h : (side c s).total + bytes.length ≤ poolBufSize)
    (hk : (side c s).kind ≠ .incomplete) (hn : sendLen (side (filled c s bytes) s) send = 0) :
    ReadFate cnf w b c s recv send (gone cnf (putConn (logs w
      [recvEv b c s bytes, sendEv b (filled c s bytes) s send])
      b (filled c s bytes)) b (filled c s bytes) true)

theorem filled_socks (c : Conn) (s : Side) (bytes : List UInt8) (t : Side) :
    (side (filled c s bytes) t).sock = (side c t).sock := by
  cases s <;> cases t <;> rfl

theorem filled_kinds (hk : Kinds c) (s : Side) (bytes : List UInt8) : Kinds (filled c s bytes) := by
  cases s <;> exact hk

theorem after_send_sock (d : ConnEnd) (out : SendOut) :
    (afterSend d out).sock = d.sock ∧ (afterSend d out).kind = d.kind ∧
      (afterSend d out).addr = d.addr ∧ (afterSend d out).buf = d.buf := by
  unfold afterSend ConnEnd.advance
  repeat' split
  all_goals exact ⟨rfl, rfl, rfl, rfl⟩

theorem wake_sock (d e : ConnEnd) :
    (wake d e).sock = e.sock ∧ (wake d e).kind = e.kind ∧ (wake d e).addr = e.addr := by
  unfold wake
  split <;> exact ⟨rfl, rfl, rfl⟩

/-- `pool_send_data` leaves sockets, kinds and addresses alone. -/
theorem sent_conn_fixed (c : Conn) (s : Side) (out : SendOut) (resume : Bool) (t : Side) :
    (side (sentConn c s out resume) t).sock = (side c t).sock ∧
    (side (sentConn c s out resume) t).kind = (side c t).kind ∧
    (side (sentConn c s out resume) t).addr = (side c t).addr := by
  obtain ⟨h1, h2, h3, _⟩ := after_send_sock (side c s) out
  obtain ⟨g1, g2, g3⟩ := wake_sock (afterSend (side c s) out) (side c s.other)
  unfold sentConn
  cases s <;> cases t <;> split <;>
    simp_all [side, setSide, Side.other]

theorem stall_fixed (c : Conn) (s t : Side) :
    (side (stall c s) t).sock = (side c t).sock ∧ (side (stall c s) t).kind = (side c t).kind ∧
      (side (stall c s) t).addr = (side c t).addr := by
  unfold stall
  cases s <;> cases t <;> split <;> exact ⟨rfl, rfl, rfl⟩

theorem sent_conn_end (c : Conn) (s : Side) (out : SendOut) (resume : Bool) :
    side (sentConn c s out resume) s = afterSend (side c s) out := by
  unfold sentConn
  split
  · rw [side_other_set, side_set]
  · rw [side_set]

theorem stall_end (c : Conn) (s : Side) : side (stall c s) s = side c s := by
  unfold stall
  split
  · exact side_other_set c s _
  · rfl

/-- The end that data arrives for. -/
theorem read_end (c : Conn) (s : Side) (bytes : List UInt8) (send : SendOut) :
    side (stall (sentConn (filled c s bytes) s send false) s) s = afterSend (fill (side c s) bytes) send := by
  rw [stall_end, sent_conn_end, filled, side_set]

/-- Data that arrives leaves sockets, kinds and addresses alone. -/
theorem read_fixed (c : Conn) (s : Side) (bytes : List UInt8) (send : SendOut) (t : Side) :
    (side (stall (sentConn (filled c s bytes) s send false) s) t).sock = (side c t).sock ∧
    (side (stall (sentConn (filled c s bytes) s send false) s) t).kind = (side c t).kind ∧
    (side (stall (sentConn (filled c s bytes) s send false) s) t).addr = (side c t).addr := by
  obtain ⟨h1, h2, h3⟩ := stall_fixed (sentConn (filled c s bytes) s send false) s t
  obtain ⟨g1, g2, g3⟩ := sent_conn_fixed (filled c s bytes) s send false t
  rw [h1, h2, h3, g1, g2, g3]
  cases s <;> cases t <;> exact ⟨rfl, rfl, rfl⟩

theorem sent_kinds (hk : Kinds c) (s : Side) (out : SendOut) (resume : Bool) :
    Kinds (sentConn c s out resume) := by
  have hi := (sent_conn_fixed c s out resume .inc).2.1
  have hd := (sent_conn_fixed c s out resume .dst).2.1
  exact ⟨hi.trans hk.1, fun h => hk.2 (hd.symm.trans h)⟩

theorem stall_kinds (hk : Kinds c) (s : Side) : Kinds (stall c s) := by
  have hi := (stall_fixed c s .inc).2.1
  have hd := (stall_fixed c s .dst).2.1
  exact ⟨hi.trans hk.1, fun h => hk.2 (hd.symm.trans h)⟩

theorem read_cases (hh : Held w b c) (hk : Kinds c) (s : Side)
    (h : poolHandleRead build cnf w (side c s.other).sock recv send = some (w', ret)) :
    ∃ v, ReadFate cnf w b c s recv send v ∧ bare w' = bare v := by
  unfold poolHandleRead at h
  rw [hh.route s.other, other_other] at h
  simp only [Option.bind_eq_bind, Option.bind_some, deref_ptr hh.block] at h
  split at h
  · rename_i ht
    cases recv with
    | error errno =>
      simp only [Option.some.injEq, Prod.mk.injEq] at h
      obtain ⟨rfl, _⟩ := h
      exact ⟨_, .nothing ht, rfl⟩
    | data avail =>
      simp only at h
      split at h
      · rename_i h0
        have hnil : avail.take (poolBufSize - (side c s).total) = [] := List.length_eq_zero_iff.mp h0
        simp only [hnil, Option.bind_eq_some_iff, Option.some.injEq, Prod.mk.injEq] at h
        obtain ⟨w1, h1, rfl, _⟩ := h
        have hrem := remove_spec (held_logs hh [recvEv b c s []]) hk s.other h1
        by_cases hf : s = .dst ∨ c.dst.kind ≠ .incomplete
        · have hf' : s.other = .inc ∨ c.dst.kind ≠ .incomplete := by
            cases s <;> simp_all [Side.other]
          rw [if_pos hf'] at hrem
          exact ⟨_, .closed ht hf, hrem⟩
        · have hf' : ¬ (s.other = .inc ∨ c.dst.kind ≠ .incomplete) := by
            cases s <;> simp_all [Side.other]
          rw [if_neg hf'] at hrem
          have hs : s = .inc := by cases s <;> simp_all
          exact ⟨_, .detach ht hs (by simp_all), hrem⟩
      · rename_i h0
        generalize hbytes : avail.take (poolBufSize - (side c s).total) = bytes at h h0
        have hlen : (side c s).total + bytes.length ≤ poolBufSize := by
          rw [← hbytes, List.length_take]
          omega
        have hheld : Held (putConn (logs w [recvEv b c s bytes]) b (filled c s bytes)) b
            (filled c s bytes) := held_put (held_logs hh _) (filled_socks c s bytes)
        simp only [Option.bind_eq_some_iff, Prod.exists] at h
        obtain ⟨w1, err, h1, h⟩ := h
        rw [store_ptr (by exact hh.block)] at h1
        rcases send_data_cases hheld (filled_kinds hk s bytes) s false h1 with
          ⟨hne, hspare, hw1⟩ | ⟨he, hn, _, hki, hw1⟩
        · simp only [hne, ↓reduceIte, Option.bind_eq_some_iff, Option.some.injEq,
            Prod.mk.injEq] at h
          obtain ⟨w2, h2, rfl, _⟩ := h
          have hheld1 : Held w1 b (sentConn (filled c s bytes) s send false) :=
            held_of_bare hw1 (held_put (held_logs hheld _)
              (fun t => (sent_conn_fixed _ s send false t).1))
          have hw2 := read_done_spec hheld1 s h2
          refine ⟨_, .passed avail bytes rfl hbytes (by omega) hlen hspare, ?_⟩
          have hlast := hw2.trans (congrArg (fun v => putConn v b _) hw1)
          have heq : bare (poolCountRecv w2) = bare w2 := rfl
          rw [heq, hlast]
          simp [bare, putConn, logs]
        · simp only [he, ↓reduceIte, Option.some.injEq, Prod.mk.injEq] at h
          obtain ⟨rfl, _⟩ := h
          have hki' : (side c s).kind ≠ .incomplete := by
            cases s <;> exact hki
          refine ⟨_, .broken bytes (by omega) hlen hki' hn, ?_⟩
          rw [hw1]
          simp [gone, bare, putConn, logs, unroute, forget, routerLeaves, World.free, World.close]
  · rename_i ht
    simp only [Option.some.injEq, Prod.mk.injEq] at h
    obtain ⟨rfl, _⟩ := h
    exact ⟨_, .full (by omega), rfl⟩

def completed (c : Conn) : Conn :=
  { c with dst := { c.dst with kind := .complete, events := poolFdRead } }

/-- The connection as `pool_handle_write` on side `s` goes on with it. -/
def settled (c : Conn) (s : Side) : Conn :=
  if (side c s).kind = .incomplete then completed c else c

def retarget (c : Conn) (addr : SockAddr) : Conn :=
  { c with dst := { c.dst with addr := addr } }

def released (c : Conn) : Conn := { c with dst := { c.dst with kind := .complete } }

/-- The router's answer to a failed asynchronous connect. -/
def again (cnf : Cnf) (w : World) (c : Conn) (env : CompleteEnv) : Router × Option SockAddr :=
  glbRouterChooseDstAgain cnf env.now env.choose w.router (poolHint cnf c.inc) c.dst.addr

def rerouted (cnf : Cnf) (w : World) (c : Conn) (env : CompleteEnv) : World :=
  { w with router := (again cnf w c env).1 }

/-- What `pool_handle_write` does on the descriptor of side `s`. -/
inductive WriteFate (cnf : Cnf) (w : World) (b : Nat) (c : Conn) (s : Side) (env : CompleteEnv)
    (send : SendOut) : World → Prop
  | drained (h0 : (side (settled c s) s).total = 0) :
    WriteFate cnf w b c s env send (putConn w b (settled c s))
  | passed (h0 : (side (settled c s) s).total ≠ 0) (hs : Spares (side (settled c s) s) send) :
    WriteFate cnf w b c s env send (putConn (logs w [sendEv b (settled c s) s send]) b
      (sentConn (settled c s) s send true))
  | broken (h0 : (side (settled c s) s).total ≠ 0) :
    WriteFate cnf w b c s env send (gone cnf (putConn (logs w [sendEv b (settled c s) s send]) b
      (settled c s)) b (settled c s) true)
  | refused (hs : s = .dst) (hi : c.dst.kind = .incomplete) (hn : (again cnf w c env).2 = none) :
    WriteFate cnf w b c s env send (gone cnf (putConn (rerouted cnf w c env) b (released c)) b
      (released c) false)
  | moved (addr : SockAddr) (fd : Fd) (hs : s = .dst) (hi : c.dst.kind = .incomplete)
    (ha : (again cnf w c env).2 = some addr) (hp : 0 < fd)
    (ho : (detached (rerouted cnf w c env) c).isOpen fd = false) :
    WriteFate cnf w b c s env send (attached (opened (detached (rerouted cnf w c env) c) fd) b
      (onSock (retarget c addr) fd))
  | abandoned (addr : SockAddr) (l : List Ev) (hs : s = .dst) (hi : c.dst.kind = .incomplete)
    (ha : (again cnf w c env).2 = some addr) (hl : Silent l) :
    WriteFate cnf w b c s env send (lost cnf (detached (rerouted cnf w c env) c) b
      (retarget c addr) env.addNow l)

/-- A failed asynchronous connect as one expression. -/
theorem conn_failed_eq (build : Build) (cnf : Cnf) (hb : w.heap b = some c) (he : env.soError ≠ 0) :
    poolHandleConnComplete build cnf w (dstPtr b) env =
      match (again cnf w c env).2 with
      | some addr =>
        (poolRemoveConn build cnf (putConn (rerouted cnf w c env) b (retarget c addr)) c.dst.sock
          false).bind fun w1 => (w1.deref (dstPtr b)).bind fun d =>
            (poolHandleAddConn build cnf (w1.store (dstPtr b) { d with sock := -1 }) b env.async
              env.addNow).bind fun w2 => some (w2, env.soError)
      | none =>
        (poolRemoveConn build cnf (putConn (rerouted cnf w c env) b (released c)) c.dst.sock
          false).bind fun w1 => some (w1, env.soError) := by
  have hinc : w.deref ⟨(dstPtr b).block, (dstPtr b).off - poolEndSize⟩ = some c.inc := by
    have hptr := deref_ptr hb .inc
    simpa [dstPtr, ptr, incPtr, side] using hptr
  have hstore : ∀ e, (rerouted cnf w c env).store (dstPtr b) e =
      putConn (rerouted cnf w c env) b (setSide c .dst e) := fun e => store_ptr (by exact hb) .dst e
  unfold poolHandleConnComplete
  rw [show w.deref (dstPtr b) = some c.dst from deref_ptr hb .dst]
  simp only [Option.bind_eq_bind, Option.bind_some, he, ne_eq, not_false_eq_true, ↓reduceIte, hinc]
  have hagain : glbRouterChooseDstAgain cnf env.now env.choose w.router (poolHint cnf c.inc)
    c.dst.addr = again cnf w c env := rfl
  rw [hagain]
  cases (again cnf w c env).2 with
  | none => exact congrArg (fun v => (poolRemoveConn build cnf v c.dst.sock false).bind _) (hstore _)
  | some addr =>
    exact congrArg (fun v => (poolRemoveConn build cnf v c.dst.sock false).bind _) (hstore _)

/-- A failed connect ends the connection, or takes it out of the tables and adds it again
with the next destination. -/
theorem conn_failed_steps (hh : Held w b c) (hk : Kinds c) (hi : c.dst.kind = .incomplete)
    (he : env.soError ≠ 0)
    (h : poolHandleConnComplete build cnf w (dstPtr b) env = some (w', ret)) :
    ret = env.soError ∧
    (((again cnf w c env).2 = none ∧
        bare w' = bare (gone cnf (putConn (rerouted cnf w c env) b (released c)) b (released c) false)) ∨
      ∃ addr w1, (again cnf w c env).2 = some addr ∧
        bare w1 = bare (putConn (detached (rerouted cnf w c env) c) b (retarget c addr)) ∧
        poolHandleAddConn build cnf (putConn w1 b (onSock (retarget c addr) (-1))) b env.async
          env.addNow = some w') := by
  have hrer : Held (rerouted cnf w c env) b c := ⟨hh.block, hh.route⟩
  rw [conn_failed_eq build cnf hh.block he] at h
  cases ha : (again cnf w c env).2 with
  | none =>
    simp only [ha, Option.bind_eq_some_iff, Option.some.injEq, Prod.mk.injEq] at h
    obtain ⟨w1, h1, rfl, rfl⟩ := h
    have hh1 : Held (putConn (rerouted cnf w c env) b (released c)) b (released c) :=
      held_put hrer (by intro t; cases t <;> rfl)
    have hrem := remove_spec hh1 ⟨hk.1, by simp [released]⟩ .dst h1
    rw [if_pos (Or.inr (by simp [released]))] at hrem
    exact ⟨rfl, Or.inl ⟨rfl, hrem⟩⟩
  | some addr =>
    simp only [ha, Option.bind_eq_some_iff, Option.some.injEq, Prod.mk.injEq] at h
    obtain ⟨w1, h1, d, hd, w2, h2, rfl, rfl⟩ := h
    have hh1 : Held (putConn (rerouted cnf w c env) b (retarget c addr)) b (retarget c addr) :=
      held_put hrer (by intro t; cases t <;> rfl)
    have hrem := remove_spec hh1 hk .dst h1
    rw [if_neg (by simp [retarget, hi])] at hrem
    have hheap : w1.heap b = some (retarget c addr) := (congrArg (fun w => w.heap b) hrem).trans hh1.block
    rw [show w1.deref (dstPtr b) = some (retarget c addr).dst from deref_ptr hheap .dst,
      Option.some.injEq] at hd
    subst hd
    rw [show w1.store (dstPtr b) _ = _ from store_ptr hheap .dst _] at h2
    exact ⟨rfl, Or.inr ⟨addr, w1, rfl, hrem, h2⟩⟩

/-- A failed asynchronous connect. -/
theorem conn_failed (send : SendOut) (hh : Held w b c) (hk : Kinds c) (hi : c.dst.kind = .incomplete)
    (he : env.soError ≠ 0)
    (h : poolHandleConnComplete build cnf w (dstPtr b) env = some (w', ret)) :
    ret ≠ 0 ∧ ∃ v, WriteFate cnf w b c .dst env send v ∧ bare w' = bare v := by
  obtain ⟨rfl, ⟨ha, hw⟩ | ⟨addr, w1, ha, hw1, h2⟩⟩ := conn_failed_steps hh hk hi he h
  · exact ⟨he, _, .refused rfl hi ha, hw⟩
  · refine ⟨he, ?_⟩
    have hw2 := congrArg (fun v => putConn v b (onSock (retarget c addr) (-1))) hw1
    rcases add_conn_cases (put_conn_heap _ _ _) h2 with ⟨_, l, hl, hw⟩ | ⟨w3, c3, hsock, hw⟩
    · refine ⟨_, .abandoned addr l rfl hi ha hl, hw.trans ?_⟩
      refine (congrArg (fun v => lost cnf v b (onSock (retarget c addr) (-1)) env.addNow l)
        hw2).trans ?_
      simp [lost, bare, putConn, logs, onSock, retarget]
    · rcases hsock with ⟨hpos, _⟩ | ⟨_, fd, hfd, hfree, rfl, rfl⟩
      · have hneg : (0 : Int) ≤ -1 := hpos
        omega
      · have hopen : (detached (rerouted cnf w c env) c).isOpen fd = false := by
          have := congrArg (fun w => w.isOpen fd) hw1
          exact this.symm.trans hfree
        refine ⟨_, .moved addr fd rfl hi ha hfd hopen, hw.trans ?_⟩
        refine (congrArg (fun v => attached (opened v fd) b
          (onSock (onSock (retarget c addr) (-1)) fd)) hw2).trans ?_
        simp [attached, bare, putConn, opened, route, onSock, retarget]

/-- `pool_handle_conn_complete` when the connect succeeded. -/
theorem conn_succeeded (hb : w.heap b = some c) (he : env.soError = 0)
    (h : poolHandleConnComplete build cnf w (dstPtr b) env = some (w', ret)) :
    ret = 0 ∧ bare w' = bare (putConn w b (completed c)) := by
  unfold poolHandleConnComplete at h
  rw [show w.deref (dstPtr b) = some c.dst from deref_ptr hb .dst] at h
  simp only [Option.bind_eq_bind, Option.bind_some, he, ne_eq, not_true_eq_false, ↓reduceIte,
    Option.bind_eq_some_iff, Option.some.injEq, Prod.mk.injEq] at h
  obtain ⟨w1, h1, rfl, rfl⟩ := h
  rw [show w.store (dstPtr b) _ = _ from store_ptr hb .dst _] at h1
  exact ⟨rfl, set_events_bare h1⟩

theorem kind_incomplete (hk : Kinds c) (hi : (side c s).kind = .incomplete) :
    s = .dst ∧ c.dst.kind = .incomplete := by
  cases s with
  | inc =>
    have hc : (side c .inc).kind = .client := hk.1
    rw [hc] at hi
    cases hi
  | dst => exact ⟨rfl, hi⟩

theorem settled_socks (c : Conn) (s t : Side) : (side (settled c s) t).sock = (side c t).sock := by
  unfold settled
  split <;> cases t <;> rfl

theorem settled_kinds (hk : Kinds c) (s : Side) : Kinds (settled c s) := by
  unfold settled
  split
  · exact ⟨hk.1, by simp [completed]⟩
  · exact hk

theorem settled_inc (hk : Kinds c) : settled c .inc = c := by
  unfold settled
  split
  · rename_i hi
    cases (kind_incomplete hk hi).1
  · rfl

theorem settled_complete (c : Conn) : (settled c .dst).dst.kind ≠ .incomplete := by
  unfold settled
  split
  · simp [completed]
  · rename_i h
    exact h

/-- The rest of `pool_handle_write` once the server end is complete. -/
theorem write_rest (hh : Held w b c) (hk : Kinds c) (s : Side)
    (hw1 : bare w1 = bare (putConn w b (settled c s)))
    (h : (do
      let d ← w1.deref (ptr b s)
      if d.total ≠ 0 then
        let (w, _) ← poolSendData build cnf w1 (ptr b s) (some (ptr b s.other)) send
        some w
      else some w1) = some w') :
    ∃ v, WriteFate cnf w b c s env send v ∧ bare w' = bare v := by
  have hheld1 : Held w1 b (settled c s) := held_of_bare hw1 (held_put hh (settled_socks c s))
  simp only [deref_ptr hheld1.block, Option.bind_eq_bind, Option.bind_some] at h
  split at h
  · rename_i h0
    simp only [Option.bind_eq_some_iff, Option.some.injEq, Prod.exists] at h
    obtain ⟨w2, ret, h2, rfl⟩ := h
    rcases send_data_cases hheld1 (settled_kinds hk s) s true h2 with
      ⟨_, hspare, hw2⟩ | ⟨_, _, _, _, hw2⟩
    · refine ⟨_, .passed h0 hspare, hw2.trans ?_⟩
      refine (congrArg (fun v => putConn (logs v [sendEv b (settled c s) s send]) b
        (sentConn (settled c s) s send true)) hw1).trans ?_
      simp [bare, putConn, logs]
    · refine ⟨_, .broken h0, hw2.trans ?_⟩
      exact congrArg (fun v => gone cnf (logs v [sendEv b (settled c s) s send]) b
        (settled c s) true) hw1
  · rename_i h0
    simp only [Option.some.injEq] at h
    subst h
    exact ⟨_, .drained (by simpa using h0), hw1⟩

theorem write_cases (hh : Held w b c) (hk : Kinds c) (s : Side)
    (h : poolHandleWrite build cnf w (side c s).sock env send = some w') :
    ∃ v, WriteFate cnf w b c s env send v ∧ bare w' = bare v := by
  unfold poolHandleWrite at h
  simp only [Option.bind_eq_bind, hh.route s, Option.bind_some, deref_ptr hh.block,
    hh.route s.other, other_other] at h
  obtain ⟨⟨w1, failed⟩, h1, h⟩ := Option.bind_eq_some_iff.mp h
  split at h1
  · rename_i hi
    obtain ⟨hs, hid⟩ := kind_incomplete hk hi
    subst hs
    by_cases he : env.soError = 0
    · obtain ⟨rfl, hw1⟩ := conn_succeeded hh.block he h1
      simp only [ne_eq, not_true_eq_false, ↓reduceIte] at h
      refine write_rest hh hk .dst ?_ h
      rw [settled, if_pos hi]
      exact hw1
    · obtain ⟨hne, v, hv, hw1⟩ := conn_failed send hh hk hid he h1
      simp only [hne, ne_eq, not_false_eq_true, ↓reduceIte, Option.some.injEq] at h
      subst h
      exact ⟨v, hv, hw1⟩
  · rename_i hi
    simp only [Option.some.injEq, Prod.mk.injEq] at h1
    obtain ⟨rfl, rfl⟩ := h1
    simp only [ne_eq, not_true_eq_false, ↓reduceIte] at h
    refine write_rest hh hk s ?_ h
    rw [settled, if_neg hi, put_conn_same hh.block]

end Glb.Proofs.PoolEvents
