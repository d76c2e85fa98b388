import Glb.Daemon

namespace Glb.Proofs.PoolFrame
open Lib.Window

variable {build : Build} {cnf : Cnf} {w w' : World} {b : Nat} {c : Conn}

/-- A world without its descriptor set and counters. No handler's effect on
connections depends on these. -/
def bare (w : World) : World :=
  { w with fdset := ⟨[], 0, fun _ => 0⟩, stats := glbZeroStats }

/- The operations on the descriptor set leave everything else as it is. -/

theorem fds_add_eq (h : poolFdsAdd build w p fd ev = some w') : ∃ s, w' = { w with fdset := s } := by
  unfold poolFdsAdd at h
  simp only at h
  split at h
  · cases h
  · exact ⟨_, (Option.some.inj h).symm⟩

theorem fds_del_eq (h : poolFdsDel build w p = some w') :
    ∃ s, w' = { w with fdset := s } ∧ s.pollfdsLen = w.fdset.pollfdsLen := by
  unfold poolFdsDel at h
  simp only [Option.bind_eq_bind, Option.bind_eq_some_iff] at h
  obtain ⟨e, _, h⟩ := h
  cases build with
  | epoll =>
    simp only at h
    split at h
    · exact ⟨_, (Option.some.inj h).symm, rfl⟩
    · cases h
  | poll =>
    simp only [Option.bind_eq_some_iff] at h
    obtain ⟨x, _, q, _, h⟩ := h
    split at h
    · exact ⟨_, (Option.some.inj h).symm, rfl⟩
    · cases h

theorem set_events_eq (h : poolFdsSetEvents build w p = some w') : ∃ s, w' = { w with fdset := s } := by
  unfold poolFdsSetEvents at h
  simp only [Option.bind_eq_bind, Option.bind_eq_some_iff] at h
  obtain ⟨e, _, h⟩ := h
  cases build with
  | epoll =>
    simp only at h
    split at h
    · exact ⟨_, (Option.some.inj h).symm⟩
    · cases h
  | poll =>
    simp only at h
    split at h
    · exact ⟨_, (Option.some.inj h).symm⟩
    · cases h

theorem fds_add_bare (h : poolFdsAdd build w p fd ev = some w') : bare w' = bare w := by
  obtain ⟨s, rfl⟩ := fds_add_eq h
  rfl

theorem fds_del_bare (h : poolFdsDel build w p = some w') : bare w' = bare w := by
  obtain ⟨s, rfl, _⟩ := fds_del_eq h
  rfl

theorem set_events_bare (h : poolFdsSetEvents build w p = some w') : bare w' = bare w := by
  obtain ⟨s, rfl⟩ := set_events_eq h
  rfl

/-- The two ends of a connection. -/
inductive Side where
  | inc
  | dst
  deriving DecidableEq

def Side.other : Side → Side
  | .inc => .dst
  | .dst => .inc

@[simp] theorem other_other (s : Side) : s.other.other = s := by cases s <;> rfl

def ptr (b : Nat) : Side → EndPtr
  | .inc => incPtr b
  | .dst => dstPtr b

@[simp] theorem ptr_block (b : Nat) (s : Side) : (ptr b s).block = b := by cases s <;> rfl

/-- The end of a connection on one side. -/
def side (c : Conn) : Side → ConnEnd
  | .inc => c.inc
  | .dst => c.dst

def setSide (c : Conn) : Side → ConnEnd → Conn
  | .inc, e => { c with inc := e }
  | .dst, e => { c with dst := e }

@[simp] theorem side_set (c : Conn) (s : Side) (e : ConnEnd) : side (setSide c s e) s = e := by
  cases s <;> rfl

@[simp] theorem side_set_other (c : Conn) (s : Side) (e : ConnEnd) :
    side (setSide c s e) s.other = side c s.other := by
  cases s <;> rfl

@[simp] theorem side_other_set (c : Conn) (s : Side) (e : ConnEnd) :
    side (setSide c s.other e) s = side c s := by
  cases s <;> rfl

@[simp] theorem set_side_self (c : Conn) (s : Side) : setSide c s (side c s) = c := by
  cases s <;> rfl

@[simp] theorem set_set_side (c : Conn) (s : Side) (e e' : ConnEnd) :
    setSide (setSide c s e) s e' = setSide c s e' := by
  cases s <;> rfl

theorem deref_ptr (hb : w.heap b = some c) (s : Side) : w.deref (ptr b s) = some (side c s) := by
  cases s <;> simp [World.deref, ptr, incPtr, dstPtr, hb, side, poolEndSize]

/-- `w` with the block `b` replaced. -/
def putConn (w : World) (b : Nat) (c : Conn) : World :=
  { w with heap := Function.update w.heap b (some c) }

theorem store_ptr (hb : w.heap b = some c) (s : Side) (e : ConnEnd) :
    w.store (ptr b s) e = putConn w b (setSide c s e) := by
  cases s <;> simp [World.store, putConn, ptr, incPtr, dstPtr, hb, setSide, poolEndSize]

@[simp] theorem put_conn_heap (w : World) (b : Nat) (c : Conn) : (putConn w b c).heap b = some c := by
  simp [putConn]

@[simp] theorem put_put_conn (w : World) (b : Nat) (c c' : Conn) :
    putConn (putConn w b c) b c' = putConn w b c' := by
  simp [putConn]

theorem put_conn_same (hb : w.heap b = some c) : putConn w b c = w := by
  have he : Function.update w.heap b (some c) = w.heap := by
    rw [← hb]
    exact Function.update_eq_self b w.heap
  simp [putConn, he]

/-- A connection that the pool serves: its block, and both descriptors leading to
the opposite end. -/
structure Held (w : World) (b : Nat) (c : Conn) : Prop where
  block : w.heap b = some c
  route : ∀ s, w.routeMap (side c s).sock = some (ptr b s.other)

/-- The kinds that `glb_pool_add_conn` gives the ends. -/
def Kinds (c : Conn) : Prop := c.inc.kind = .client ∧ c.dst.kind ≠ .client

/-- `pool_conn_end_by_fd` finds the end that a descriptor belongs to. -/
theorem end_by_fd (hb : w.heap b = some c) {s : Side} (hr : w.routeMap (side c s).sock = some (ptr b s.other))
    (hk : Kinds c) : poolConnEndByFd w (side c s).sock = some (ptr b s) := by
  unfold poolConnEndByFd
  rw [hr]
  simp only [Option.bind_eq_bind, Option.bind_some, deref_ptr hb]
  cases s with
  | inc =>
    have hd : (side c Side.inc.other).kind ≠ .client := hk.2
    rw [if_neg hd]
    simp [ptr, Side.other, dstPtr, incPtr]
  | dst =>
    have hi : (side c Side.dst.other).kind = .client := hk.1
    rw [if_pos hi]
    simp [ptr, Side.other, dstPtr, incPtr]

/-- Every entry of `route_map` belongs to a connection served. -/
def Paired (w : World) : Prop :=
  ∀ fd p, w.routeMap fd = some p → ∃ b c s, Held w b c ∧ fd = (side c s).sock

/-- The events an end is registered with. -/
def regEvents (e : ConnEnd) : BitVec 32 :=
  if e.kind = .incomplete then poolFdWrite else poolFdRead

def registered (e : ConnEnd) : ConnEnd := { e with events := regEvents e }

/-- The world after `fd` was made to lead to the end `q`. -/
def route (w : World) (fd : Fd) (q : EndPtr) : World :=
  { w with routeMap := Function.update w.routeMap fd (some q) }

theorem set_conn_end_spec (hb : w.heap b = some c) (s : Side)
    (h : poolSetConnEnd build w (ptr b s) q = some w') :
    bare w' = bare (route (putConn w b (setSide c s (registered (side c s)))) (side c s).sock q) := by
  unfold poolSetConnEnd at h
  simp only [deref_ptr hb, Option.bind_eq_bind, Option.bind_some, Option.bind_eq_some_iff,
    Option.some.injEq] at h
  obtain ⟨w1, h1, rfl⟩ := h
  have hbare := fds_add_bare h1
  have hheap : w1.heap = w.heap := congrArg (fun w => w.heap) hbare
  rw [store_ptr (hheap ▸ hb)]
  exact congrArg (fun v => route (putConn v b (setSide c s (registered (side c s))))
    (side c s).sock q) hbare

/-- The world after an end was taken out of `route_map`. -/
def unroute (w : World) (fd : Fd) (cl : Bool) : World :=
  { (if cl then w.close fd else w) with routeMap := Function.update w.routeMap fd none }

theorem reset_spec (hb : w.heap b = some c) (s : Side)
    (h : poolResetConnEnd build w (ptr b s) cl = some w') :
    bare w' = bare (unroute w (side c s).sock cl) := by
  unfold poolResetConnEnd at h
  simp only [Option.bind_eq_bind, Option.bind_eq_some_iff, Option.some.injEq] at h
  obtain ⟨w1, h1, e, he, rfl⟩ := h
  have hbare := fds_del_bare h1
  have hheap : w1.heap = w.heap := congrArg (fun w => w.heap) hbare
  rw [deref_ptr (hheap ▸ hb), Option.some.injEq] at he
  subst he
  cases cl with
  | false => exact congrArg (fun v => unroute v (side c s).sock false) hbare
  | true => exact congrArg (fun v => unroute v (side c s).sock true) hbare

theorem remove_ends (hh : Held w b c) (hk : Kinds c) (s : Side) :
    poolRemoveEnds w (side c s).sock =
      some (ptr b .inc, ptr b .dst, decide (s = .inc ∨ c.dst.kind ≠ .incomplete)) := by
  unfold poolRemoveEnds
  rw [hh.route s]
  simp only [Option.bind_eq_bind, Option.bind_some, deref_ptr hh.block]
  cases s with
  | inc =>
    have hd : (side c Side.inc.other).kind ≠ .client := hk.2
    simp only [hd, ne_eq, not_false_eq_true, ↓reduceIte]
    simp [Side.other, ptr, incPtr, dstPtr]
  | dst =>
    have hi : (side c Side.dst.other).kind = .client := hk.1
    have hq : w.deref ⟨(ptr b Side.dst.other).block, (ptr b Side.dst.other).off + poolEndSize⟩ =
        some c.dst := deref_ptr hh.block .dst
    simp only [hi, ne_eq, not_true_eq_false, ↓reduceIte, hq, Option.bind_some]
    simp [Side.other, ptr, incPtr, dstPtr]

def forget (w : World) : World := { w with nConns := w.nConns - 1 }

def routerLeaves (cnf : Cnf) (addr : SockAddr) (notify : Bool) (w : World) : World :=
  if notify then { w with router := glbRouterDisconnect cnf 0 w.router addr false } else w

/-- The world after full cleanup of a connection. -/
def gone (cnf : Cnf) (w : World) (b : Nat) (c : Conn) (notify : Bool) : World :=
  (routerLeaves cnf c.dst.addr notify
    (unroute (unroute (forget w) c.dst.sock true) c.inc.sock true)).free b

/-- The world after the cleanup that precedes a new attempt to connect. -/
def detached (w : World) (c : Conn) : World :=
  unroute (unroute (forget w) c.dst.sock true) c.inc.sock false

theorem gone_heap (cnf : Cnf) (w : World) (b : Nat) (c : Conn) (notify : Bool) :
    (gone cnf w b c notify).heap = Function.update w.heap b none := by
  cases notify <;> rfl

theorem gone_log (cnf : Cnf) (w : World) (b : Nat) (c : Conn) (notify : Bool) :
    (gone cnf w b c notify).log = w.log ++ [.close c.dst.sock, .close c.inc.sock, .free b] := by
  cases notify <;> simp [gone, routerLeaves, unroute, forget, World.free, World.close]

theorem detached_log (w : World) (c : Conn) :
    (detached w c).log = w.log ++ [.close c.dst.sock] := rfl

theorem remove_spec (hh : Held w b c) (hk : Kinds c) (s : Side)
    (h : poolRemoveConn build cnf w (side c s).sock notify = some w') :
    bare w' = bare (if s = .inc ∨ c.dst.kind ≠ .incomplete then gone cnf w b c notify
      else detached w c) := by
  unfold poolRemoveConn at h
  simp only [remove_ends hh hk s, Option.bind_eq_bind, Option.bind_some,
    Option.bind_eq_some_iff] at h
  obtain ⟨w1, h1, h⟩ := h
  have hreset := reset_spec (c := c) (by exact hh.block) .dst h1
  have hb1 : bare w1 = bare (unroute (forget w) c.dst.sock true) := hreset
  have hheap1 : w1.heap b = some c := (congrArg (fun w => w.heap b) hb1).trans hh.block
  by_cases hf : s = .inc ∨ c.dst.kind ≠ .incomplete
  · simp only [hf, decide_true, ↓reduceIte, Option.bind_eq_some_iff, Option.some.injEq] at h ⊢
    obtain ⟨w2, h2, d, hd, rfl⟩ := h
    have hb2 : bare w2 = bare (unroute w1 c.inc.sock true) := reset_spec hheap1 .inc h2
    have hheap2 : w2.heap b = some c := (congrArg (fun w => w.heap b) hb2).trans hheap1
    rw [deref_ptr hheap2, Option.some.injEq] at hd
    subst hd
    have hlast : bare w2 = bare (unroute (unroute (forget w) c.dst.sock true) c.inc.sock true) :=
      hb2.trans (congrArg (fun v => unroute v c.inc.sock true) hb1)
    cases notify with
    | false => exact congrArg (fun v => (routerLeaves cnf c.dst.addr false v).free b) hlast
    | true => exact congrArg (fun v => (routerLeaves cnf c.dst.addr true v).free b) hlast
  · simp only [hf, decide_false, Bool.false_eq_true, ↓reduceIte] at h ⊢
    have hb2 : bare w' = bare (unroute w1 c.inc.sock false) := reset_spec hheap1 .inc h
    exact hb2.trans (congrArg (fun v => unroute v c.inc.sock false) hb1)

/-- Bookkeeping that leaves the bare world alone. -/
theorem bare_of_put (hb : bare w' = bare (putConn w b c)) : w'.heap b = some c := by
  have := congrArg (fun w => w.heap b) hb
  simpa [bare, putConn] using this

theorem send_done_spec (hb : w.heap b = some c) (s : Side)
    (h : poolSendDone build w (ptr b s) ev = some w') :
    bare w' = bare (putConn w b (setSide c s { side c s with events := ev })) := by
  unfold poolSendDone at h
  simp only [Option.bind_eq_bind, Option.bind_eq_some_iff] at h
  obtain ⟨d, hd, h⟩ := h
  have hd' := (deref_ptr hb s).symm.trans hd
  rw [Option.some.injEq] at hd'
  subst hd'
  split at h
  · rw [store_ptr (by exact hb)] at h
    have hset := set_events_bare h
    exact hset
  · rename_i he
    simp only [ne_eq, not_not] at he
    simp only [Option.some.injEq] at h
    subst h he
    rw [set_side_self, put_conn_same hb]
    rfl

/-- Reading is turned on again behind an end that has room. -/
def wake (d e : ConnEnd) : ConnEnd :=
  if e.events &&& poolFdRead = 0 ∧ d.total < poolBufSize then
    { e with events := e.events ||| poolFdRead } else e

theorem send_resume_spec (hb : w.heap b = some c) (s : Side)
    (h : poolSendResume build w (ptr b s) (some (ptr b s.other)) = some w') :
    bare w' = bare (putConn w b (setSide c s.other (wake (side c s) (side c s.other)))) := by
  unfold poolSendResume at h
  simp only [deref_ptr hb, Option.bind_eq_bind, Option.bind_some] at h
  unfold wake
  split at h
  · rename_i hc
    rw [store_ptr hb] at h
    rw [if_pos hc]
    exact set_events_bare h
  · rename_i hc
    simp only [Option.some.injEq] at h
    rw [if_neg hc, set_side_self, put_conn_same hb, h]

def sendLen (d : ConnEnd) (out : SendOut) : Nat := min out.ret (d.total - d.sent)

/-- What one `send` call makes of the end it sends from. -/
def afterSend (d : ConnEnd) (out : SendOut) : ConnEnd :=
  if 0 < sendLen d out then d.advance (sendLen d out)
  else if sendRetries out.errno then { d with events := d.events ||| poolFdWrite }
  else d

/-- What `pool_send_data` makes of the connection; `resume` if it is given `src`. -/
def sentConn (c : Conn) (s : Side) (out : SendOut) (resume : Bool) : Conn :=
  let c' := setSide c s (afterSend (side c s) out)
  if resume ∧ 0 < sendLen (side c s) out then
    setSide c' s.other (wake (afterSend (side c s) out) (side c s.other))
  else c'

/-- The `send` does not cost the connection. -/
def Spares (d : ConnEnd) (out : SendOut) : Prop :=
  sendLen d out = 0 → out.errno = EPIPE → d.kind = .incomplete

def sendEv (b : Nat) (c : Conn) (s : Side) (out : SendOut) : Ev :=
  .send (ptr b s) (side c s).sock ((side c s).total - (side c s).sent)
    ((side c s).pending.take (sendLen (side c s) out))

def logs (w : World) (l : List Ev) : World := { w with log := w.log ++ l }

@[simp] theorem logs_nil (w : World) : logs w [] = w := by simp [logs]

theorem set_side_comm (c : Conn) (s : Side) (e e' : ConnEnd) :
    setSide (setSide c s.other e) s e' = setSide (setSide c s e') s.other e := by
  cases s <;> rfl

theorem advance_eq (d : ConnEnd) (n : Nat) :
    d.advance n = { d with
      sent := (d.advance n).sent
      total := (d.advance n).total
      events := (d.advance n).events } := by
  unfold ConnEnd.advance
  split <;> rfl

def resumePtr (b : Nat) (s : Side) (resume : Bool) : Option EndPtr :=
  if resume then some (ptr b s.other) else none

/-- What a successful `send` has written before the events are settled. -/
def drained (d : ConnEnd) (n : Nat) : ConnEnd :=
  { d with sent := (d.advance n).sent, total := (d.advance n).total }

theorem drained_events (d : ConnEnd) (n : Nat) :
    { drained d n with events := (d.advance n).events } = d.advance n := (advance_eq d n).symm

/-- A successful `send`, from the first store on. -/
theorem send_taken (out : SendOut) (hb : w.heap b = some c) (s : Side) (resume : Bool)
    (hn : 0 < sendLen (side c s) out)
    (h1 : poolSendResume build (w.store (ptr b s) (drained (side c s) (sendLen (side c s) out)))
      (ptr b s) (resumePtr b s resume) = some w1)
    (h2 : poolSendDone build w1 (ptr b s) ((side c s).advance (sendLen (side c s) out)).events =
      some w') :
    bare w' = bare (putConn w b (sentConn c s out resume)) := by
  rw [store_ptr hb] at h1
  unfold sentConn afterSend
  simp only [hn, ↓reduceIte, and_true]
  cases resume with
  | false =>
    simp only [resumePtr, Bool.false_eq_true, ↓reduceIte, poolSendResume, Option.some.injEq] at h1
    subst h1
    have h := send_done_spec (put_conn_heap _ _ _) s h2
    simpa only [side_set, set_set_side, put_put_conn, drained_events, Bool.false_eq_true,
      ↓reduceIte] using h
  | true =>
    simp only [resumePtr, ↓reduceIte] at h1
    have hw1 := send_resume_spec (put_conn_heap _ _ _) s h1
    simp only [side_set, side_set_other, put_put_conn] at hw1
    have h := send_done_spec (bare_of_put hw1) s h2
    rw [side_other_set, side_set, drained_events, set_side_comm, set_set_side] at h
    refine h.trans ((congrArg (fun v => putConn v b _) hw1).trans ?_)
    exact congrArg bare (put_put_conn w b _ _)

theorem sent_conn_idle (c : Conn) (s : Side) (out : SendOut) (resume : Bool)
    (hn : ¬ 0 < sendLen (side c s) out) :
    sentConn c s out resume = setSide c s
      (if sendRetries out.errno then { side c s with events := (side c s).events ||| poolFdWrite }
        else side c s) := by
  simp [sentConn, afterSend, hn]

/-- `pool_send_data` either updates the connection in place or, when the peer is
gone, removes it. -/
theorem send_data_cases (hh : Held w b c) (hk : Kinds c) (s : Side) (resume : Bool)
    (h : poolSendData build cnf w (ptr b s) (resumePtr b s resume) out = some (w', ret)) :
    (ret ≠ -EPIPE ∧ Spares (side c s) out ∧
      bare w' = bare (putConn (logs w [sendEv b c s out]) b (sentConn c s out resume))) ∨
    (ret = -EPIPE ∧ sendLen (side c s) out = 0 ∧ out.errno = EPIPE ∧
      (side c s).kind ≠ .incomplete ∧
      bare w' = bare (gone cnf (logs w [sendEv b c s out]) b c true)) := by
  have hb := hh.block
  unfold poolSendData at h
  simp only [deref_ptr hb, Option.bind_eq_bind, Option.bind_some] at h
  split at h
  · rename_i hn
    simp only [Option.bind_eq_some_iff, Option.some.injEq, Prod.mk.injEq] at h
    obtain ⟨w1, h1, w2, h2, rfl, rfl⟩ := h
    refine Or.inl ⟨by simp only [EPIPE]; omega, fun h0 => absurd hn (by rw [← sendLen, h0]; exact Nat.lt_irrefl 0), ?_⟩
    have hsend := send_taken (c := c) out (by exact hb) s resume hn h1 h2
    exact hsend
  · rename_i hn
    split at h
    · rename_i hr
      simp only [Option.bind_eq_some_iff, Option.some.injEq, Prod.mk.injEq] at h
      obtain ⟨w1, h1, rfl, rfl⟩ := h
      refine Or.inl ⟨by decide, fun _ hp => absurd hr (by rw [hp]; decide), ?_⟩
      rw [sent_conn_idle c s out resume hn, if_pos hr]
      have hdone := send_done_spec (c := c) (by exact hb) s h1
      exact hdone
    · rename_i hr
      have hsame : sentConn c s out resume = c := by
        rw [sent_conn_idle c s out resume hn, if_neg hr, set_side_self]
      split at h
      · rename_i hp
        split at h
        · rename_i hki
          simp only [Option.bind_eq_some_iff, Option.some.injEq, Prod.mk.injEq] at h
          obtain ⟨w1, h1, rfl, rfl⟩ := h
          have hheld : Held (logs w [sendEv b c s out]) b c := ⟨hh.block, hh.route⟩
          have hfull : s = .inc ∨ c.dst.kind ≠ .incomplete := by
            cases s with
            | inc => exact Or.inl rfl
            | dst => exact Or.inr hki
          have hrem := remove_spec hheld hk s h1
          rw [if_pos hfull] at hrem
          exact Or.inr ⟨rfl, Nat.eq_zero_of_not_pos hn, hp, hki, hrem⟩
        · rename_i hki
          simp only [Option.some.injEq, Prod.mk.injEq] at h
          obtain ⟨rfl, rfl⟩ := h
          refine Or.inl ⟨by decide, fun _ _ => not_not.mp hki, ?_⟩
          rw [hsame, put_conn_same (by exact hb)]
          rfl
      · rename_i hp
        simp only [Option.bind_eq_some_iff, Option.some.injEq, Prod.mk.injEq] at h
        obtain ⟨w1, h1, rfl, rfl⟩ := h
        refine Or.inl ⟨by intro he; exact hp (by omega), fun _ he => absurd he hp, ?_⟩
        have hdone := send_done_spec (c := c) (by exact hb) s h1
        have hself : setSide c s { side c s with events := (side c s).events } = c := set_side_self c s
        rw [hself] at hdone
        rw [hsame]
        exact hdone

/-- Log entries that move no bytes. -/
def Silent (l : List Ev) : Prop := ∀ ev ∈ l, (∃ fd, ev = .close fd) ∨ ∃ b, ev = .free b

/-- The world with a connection registered. -/
def attached (w : World) (b : Nat) (c : Conn) : World :=
  let w := route (putConn w b (setSide c .inc (registered c.inc))) c.inc.sock (dstPtr b)
  let w := route (putConn w b ⟨registered c.inc, registered c.dst⟩) c.dst.sock (incPtr b)
  { w with nConns := w.nConns + 1 }

theorem attached_heap (w : World) (b : Nat) (c : Conn) : (attached w b c).heap =
    Function.update w.heap b (some ⟨registered c.inc, registered c.dst⟩) := by
  simp [attached, route, putConn]

def opened (w : World) (fd : Fd) : World := { w with isOpen := Function.update w.isOpen fd true }

/-- An attempt to connect fills in the socket, which it may have opened and closed. -/
theorem async_shape (h : poolHandleAsyncConn w p out = some (w', error)) :
    ∃ e, w' = w.store p e ∨ ∃ fd, w' = (opened w fd).store p e ∨ w' = ((opened w fd).store p e).close fd := by
  unfold poolHandleAsyncConn at h
  simp only [Option.bind_eq_bind, Option.bind_eq_some_iff] at h
  obtain ⟨e, _, h⟩ := h
  split at h
  · cases h
  · cases out with
    | noSocket errno =>
      simp only [Option.some.injEq, Prod.mk.injEq] at h
      exact ⟨_, Or.inl h.1.symm⟩
    | socket fd err =>
      simp only at h
      split at h
      · simp only [Option.some.injEq, Prod.mk.injEq] at h
        exact ⟨_, Or.inr ⟨fd, Or.inr h.1.symm⟩⟩
      · simp only [Option.some.injEq, Prod.mk.injEq] at h
        exact ⟨_, Or.inr ⟨fd, Or.inl h.1.symm⟩⟩

/-- The connection on the socket of a new attempt. -/
def onSock (c : Conn) (fd : Fd) : Conn := { c with dst := { c.dst with sock := fd } }

/-- An attempt to connect fails and leaves no descriptor behind, or opens one. -/
theorem async_cases (hb : w.heap b = some c)
    (h : poolHandleAsyncConn w (dstPtr b) out = some (w', error)) :
    (error ≠ 0 ∧ ∃ fd l, Silent l ∧ w' = logs (putConn w b (onSock c fd)) l) ∨
    (error = 0 ∧ ∃ fd, 0 < fd ∧ w.isOpen fd = false ∧
      w' = putConn (opened w fd) b (onSock c fd)) := by
  unfold poolHandleAsyncConn at h
  rw [show w.deref (dstPtr b) = some c.dst from deref_ptr hb .dst] at h
  simp only [Option.bind_eq_bind, Option.bind_some] at h
  split at h
  · cases h
  · rename_i hok
    cases out with
    | noSocket errno =>
      simp only [AsyncOut.ok, Bool.not_eq_true', decide_eq_false_iff_not, not_not] at hok
      simp only [Option.some.injEq, Prod.mk.injEq] at h
      obtain ⟨rfl, rfl⟩ := h
      refine Or.inl ⟨by omega, -errno, [], by simp [Silent], ?_⟩
      rw [logs_nil]
      exact store_ptr hb .dst _
    | socket fd err =>
      simp only [AsyncOut.ok, Bool.not_eq_true', Bool.and_eq_false_iff, Bool.not_eq_false', not_or,
        decide_eq_false_iff_not, not_not, Bool.not_eq_true] at hok
      have hst : (opened w fd).store (dstPtr b) { c.dst with sock := fd } =
          putConn (opened w fd) b (onSock c fd) := store_ptr (by exact hb) .dst _
      simp only at h
      split at h
      · rename_i herr
        simp only [Option.some.injEq, Prod.mk.injEq] at h
        obtain ⟨rfl, rfl⟩ := h
        refine Or.inl ⟨herr.2, fd, [.close fd], by simp [Silent], ?_⟩
        have hopen : Function.update (Function.update w.isOpen fd true) fd false = w.isOpen := by
          rw [Function.update_idem, ← hok.2, Function.update_eq_self]
        have hclose := congrArg (fun v => World.close v fd) hst
        refine hclose.trans ?_
        simp [World.close, putConn, opened, logs, hopen]
      · simp only [Option.some.injEq, Prod.mk.injEq] at h
        obtain ⟨rfl, rfl⟩ := h
        exact Or.inr ⟨rfl, fd, hok.1, hok.2, hst⟩

/-- The world after the attempt to connect a connection failed on the spot. -/
def lost (cnf : Cnf) (w : World) (b : Nat) (c : Conn) (now : Int) (l : List Ev) : World :=
  logs { w with
    heap := Function.update w.heap b none
    router := glbRouterDisconnect cnf now w.router c.dst.addr true
    isOpen := Function.update w.isOpen c.inc.sock false } l

/-- A connection that comes with a connected socket keeps it, any other gets a
descriptor the kernel just opened. -/
def Socketed (w : World) (c : Conn) (w1 : World) (c1 : Conn) : Prop :=
  (0 ≤ c.dst.sock ∧ w1 = w ∧ c1 = c) ∨
  (c.dst.sock < 0 ∧ ∃ fd, 0 < fd ∧ w.isOpen fd = false ∧ w1 = opened w fd ∧ c1 = onSock c fd)

theorem attach_spec (hb : w.heap b = some c)
    (h1 : poolSetConnEnd build w (incPtr b) (dstPtr b) = some w1)
    (h2 : poolSetConnEnd build w1 (dstPtr b) (incPtr b) = some w') :
    bare { w' with nConns := w'.nConns + 1 } = bare (attached w b c) := by
  have hb1 := set_conn_end_spec hb .inc h1
  have hheap : w1.heap b = some (setSide c .inc (registered c.inc)) := by
    have := congrArg (fun w => w.heap b) hb1
    simpa [bare, route, putConn, side] using this
  have hb2 := set_conn_end_spec hheap .dst h2
  have hw : bare w' = bare (route (putConn (route (putConn w b (setSide c .inc (registered c.inc)))
      c.inc.sock (dstPtr b)) b ⟨registered c.inc, registered c.dst⟩) c.dst.sock (incPtr b)) :=
    hb2.trans (congrArg (fun v => route (putConn v b ⟨registered c.inc, registered c.dst⟩)
      c.dst.sock (incPtr b)) hb1)
  exact congrArg (fun v : World => { v with nConns := v.nConns + 1 }) hw

theorem add_conn_cases (hb : w.heap b = some c)
    (h : poolHandleAddConn build cnf w b out now = some w') :
    (c.dst.sock < 0 ∧ ∃ l, Silent l ∧ bare w' = bare (lost cnf w b c now l)) ∨
    ∃ w1 c1, Socketed w c w1 c1 ∧ bare w' = bare (attached w1 b c1) := by
  unfold poolHandleAddConn at h
  rw [show w.deref (dstPtr b) = some c.dst from deref_ptr hb .dst] at h
  simp only [Option.bind_eq_bind, Option.bind_some, Option.bind_eq_some_iff, Prod.exists] at h
  obtain ⟨w1, error, hasync, h⟩ := h
  have attach : ∀ c1, w1.heap b = some c1 → error = 0 → bare w' = bare (attached w1 b c1) := by
    intro c1 hc1 he
    simp only [he, ne_eq, not_true_eq_false, ↓reduceIte, Option.bind_eq_some_iff,
      Option.some.injEq] at h
    obtain ⟨w2, h2, w3, h3, rfl⟩ := h
    have hatt := attach_spec hc1 h2 h3
    exact hatt
  split at hasync
  · rename_i hneg
    rcases async_cases hb hasync with ⟨herr, fd, l, hl, rfl⟩ | ⟨herr, fd, hpos, hfree, rfl⟩
    · left
      have hi : (logs (putConn w b (onSock c fd)) l).deref (incPtr b) = some c.inc :=
        deref_ptr (c := onSock c fd) (by simp [logs, putConn]) .inc
      simp only [herr, ne_eq, not_false_eq_true, ↓reduceIte, hi, Option.bind_some,
        Option.some.injEq] at h
      subst h
      refine ⟨hneg, l ++ [.close c.inc.sock, .free b], ?_, ?_⟩
      · intro ev hev
        simp only [List.mem_append, List.mem_cons, List.not_mem_nil, or_false] at hev
        rcases hev with hev | rfl | rfl
        · exact hl ev hev
        · exact Or.inl ⟨_, rfl⟩
        · exact Or.inr ⟨_, rfl⟩
      · simp [bare, lost, logs, World.free, World.close, putConn]
    · right
      refine ⟨_, _, Or.inr ⟨hneg, fd, hpos, hfree, rfl, rfl⟩, ?_⟩
      have hatt := attach (onSock c fd) (put_conn_heap _ _ _) herr
      simpa [attached] using hatt
  · rename_i hpos
    simp only [Option.some.injEq, Prod.mk.injEq] at hasync
    obtain ⟨rfl, rfl⟩ := hasync
    exact Or.inr ⟨w, c, Or.inl ⟨Int.not_lt.mp hpos, rfl, rfl⟩, attach c hb rfl⟩

/-- A scan that returns has made one removal after the other. What holds where it ends is
carried back over each, and `inv` forward. -/
theorem scan_keeps (inv : World → Prop) (R : World → World → Prop) (hdone : ∀ w, R w w)
    (hstep : ∀ {w w1 : World} {fd : Nat} {p : EndPtr}, inv w → w.routeMap fd = some p →
      poolRemoveConn build cnf w fd false = some w1 → inv w1 ∧ ∀ w', R w1 w' → R w w')
    (hw : inv w) (h : scanLoop build cnf hit n fd count w = some w') : R w w' := by
  induction n generalizing fd count w with
  | zero =>
    unfold scanLoop at h
    split at h
    · exact Option.some.inj h ▸ hdone w
    · cases h
  | succ n ih =>
    unfold scanLoop at h
    split at h
    · exact Option.some.inj h ▸ hdone w
    · split at h
      · exact ih hw h
      · rename_i p hp
        simp only [Option.bind_eq_bind, Option.bind_eq_some_iff] at h
        obtain ⟨x, _, h⟩ := h
        split at h
        · obtain ⟨w1, h1, h⟩ := Option.bind_eq_some_iff.mp h
          obtain ⟨hw1, hback⟩ := hstep hw hp h1
          exact hback w' (ih hw1 h)
        · exact ih hw h

/-- The world with a ctl read off its pipe, a round that does not count as a poll. -/
def fetched (w : World) (pipe : List PoolCtl) : World :=
  { w with pipe := pipe, stats := { w.stats with nPolls := w.stats.nPolls - 1 } }

/-- What a ctl comes to, with the statistics that its sender gets. -/
inductive CtlRead (build : Build) (cnf : Cnf) (w : World) (env : CtlEnv) : World → Stats → Prop
  | addConn {b : Nat} {pipe : List PoolCtl} {u : World} (hp : w.pipe = .addConn b :: pipe)
    (h : poolHandleAddConn build cnf (fetched w pipe) b env.async env.now = some u) :
    CtlRead build cnf w env u glbZeroStats
  | dropDst {a : SockAddr} {pipe : List PoolCtl} {u : World} (hp : w.pipe = .dropDst a :: pipe)
    (h : poolHandleDropDst build cnf env.hdr (fetched w pipe) a = some u) :
    CtlRead build cnf w env u glbZeroStats
  | stats {pipe : List PoolCtl} (hp : w.pipe = .stats :: pipe) :
    CtlRead build cnf w env { fetched w pipe with stats := glbZeroStats }
      { (fetched w pipe).stats with nConns := w.nConns }
  | shutdown {pipe : List PoolCtl} {u : World} (hp : w.pipe = .shutdown :: pipe)
    (h : scanLoop build cnf (fun _ _ => some true) poolMaxFd 0 (w.fdset.fdMax - 1 : Int) (fetched w pipe) =
      some u) :
    CtlRead build cnf w env { u.close u.ctlRecv with shutdown := true } glbZeroStats

theorem ctl_read (h : poolReadCtl build cnf w env = some w') :
    CtlRead build cnf w env w' (poolReadStats build cnf w env) := by
  unfold poolReadCtl at h
  unfold poolReadStats
  cases hp : w.pipe with
  | nil => simp [hp] at h
  | cons ctl pipe =>
    simp only [hp] at h ⊢
    obtain ⟨⟨u, st⟩, h1, hw⟩ := Option.map_eq_some_iff.mp h
    simp only at hw
    subst hw
    rw [h1]
    unfold poolHandleCtl at h1
    cases ctl with
    | addConn b =>
      simp only [Option.bind_eq_bind, Option.bind_eq_some_iff, Option.some.injEq, Prod.mk.injEq] at h1
      obtain ⟨u2, h2, rfl, rfl⟩ := h1
      exact .addConn hp h2
    | dropDst a =>
      simp only [Option.bind_eq_bind, Option.bind_eq_some_iff, Option.some.injEq, Prod.mk.injEq] at h1
      obtain ⟨u2, h2, rfl, rfl⟩ := h1
      exact .dropDst hp h2
    | stats =>
      simp only [poolHandleStats, Option.some.injEq, Prod.mk.injEq] at h1
      obtain ⟨rfl, rfl⟩ := h1
      exact .stats hp
    | shutdown =>
      simp only [poolHandleShutdown, Option.bind_eq_bind, Option.bind_eq_some_iff, Option.some.injEq,
        Prod.mk.injEq] at h1
      obtain ⟨u2, ⟨u3, h3, rfl⟩, rfl, rfl⟩ := h1
      exact .shutdown hp h3

theorem ctl_cases (h : poolReadCtl build cnf w env = some w') : ∃ st, CtlRead build cnf w env w' st :=
  ⟨_, ctl_read h⟩

theorem held_of_bare (hw : bare w' = bare w) (hh : Held w b c) : Held w' b c := by
  have hheap : w'.heap = w.heap := congrArg (fun w => w.heap) hw
  have hmap : w'.routeMap = w.routeMap := congrArg (fun w => w.routeMap) hw
  exact ⟨hheap ▸ hh.block, hmap ▸ hh.route⟩

theorem held_put (hh : Held w b c) (hs : ∀ s, (side c' s).sock = (side c s).sock) :
    Held (putConn w b c') b c' := by
  refine ⟨put_conn_heap w b c', fun s => ?_⟩
  rw [hs s]
  exact hh.route s

theorem held_logs (hh : Held w b c) (l : List Ev) : Held (logs w l) b c := ⟨hh.block, hh.route⟩

end Glb.Proofs.PoolFrame
