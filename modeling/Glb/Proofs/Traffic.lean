import Glb.Proofs.Descriptors
import Glb.Proofs.Interest
import Glb.Proofs.Stream
import Mathlib.Algebra.BigOperators.Group.List.Basic

namespace Glb.Proofs.Traffic
open Function Lib.Run Lib.Window PoolFrame PoolEvents DaemonSteps Ownership DaemonLedger Registry
open Proofs.Stream Descriptors FdTable RouterRun Interest

variable {build : Build} {cnf : Cnf} {ctrl : Ctrl} {d d' : Daemon} {w w' : World} {b : Nat} {c : Conn}
variable {l : List Ev}

/-- The counters whose exactness is at stake, `conns` for the difference between the
connections opened and closed. -/
inductive Meter where
  | recv
  | send
  | rx
  | tx
  | conns
  deriving DecidableEq

/-- What one event should move a counter by. Bytes from clients go to the buffer of the
server end, bytes to clients come from the buffer of the client end. -/
def movesBy : Meter → Ev → Int
  | .recv, .recv _ _ _ _ bytes => bytes.length
  | .rx, .recv dst _ _ _ bytes => if dst = dstPtr dst.block then bytes.length else 0
  | .send, .send _ _ _ bytes => bytes.length
  | .tx, .send dst _ _ bytes => if dst = incPtr dst.block then bytes.length else 0
  | _, _ => 0

def happened (m : Meter) (log : List Ev) : Int := (log.map (movesBy m)).sum

def shown : Meter → Stats → Int
  | .recv, s => s.recvBytes
  | .send, s => s.sendBytes
  | .rx, s => s.rxBytes
  | .tx, s => s.txBytes
  | .conns, s => s.connsOpened - s.connsClosed

def atPool (m : Meter) (nConns : Int) : Int := if m = .conns then nConns else 0

/-- What the counters of a pool are behind. -/
def gap (m : Meter) (w : World) : Int := happened m w.log + atPool m w.nConns - shown m w.stats

theorem happened_append (m : Meter) (l l' : List Ev) : happened m (l ++ l') = happened m l + happened m l' := by
  simp [happened]

theorem happened_silent (m : Meter) (h : Silent l) : happened m l = 0 := by
  apply List.sum_eq_zero
  intro x hx
  obtain ⟨ev, hev, rfl⟩ := List.mem_map.mp hx
  rcases h ev hev with ⟨fd, rfl⟩ | ⟨b, rfl⟩ <;> cases m <;> rfl

/-- A part of a handler that leaves every counter as far behind as it was. -/
def Level (w w' : World) : Prop := ∀ m, gap m w' = gap m w

theorem Level.trans (h : Level w w1) (h' : Level w1 w') : Level w w' := fun m => (h' m).trans (h m)

theorem level_silent (hl : Silent l) (hlog : w'.log = w.log ++ l) (hn : w'.nConns = w.nConns)
    (hs : w'.stats = w.stats) : Level w w' := by
  intro m
  simp only [gap, hlog, hn, hs, happened_append, happened_silent m hl]
  omega

theorem level_same (hlog : w'.log = w.log) (hn : w'.nConns = w.nConns) (hs : w'.stats = w.stats) :
    Level w w' := level_silent (l := []) (by simp [Silent]) (by simp [hlog]) hn hs

/-- An event that the counters take as it is. -/
theorem level_event (ev : Ev) (hlog : w'.log = w.log ++ [ev]) (hn : w'.nConns = w.nConns)
    (hs : ∀ m, shown m w'.stats = shown m w.stats + movesBy m ev) : Level w w' := by
  intro m
  have hev : happened m [ev] = movesBy m ev := by simp [happened]
  simp only [gap, hlog, hn, hs, happened_append, hev]
  omega

section handlers

theorem fds_add_level (h : poolFdsAdd build w p fd ev = some w') : Level w w' := by
  obtain ⟨s, rfl⟩ := fds_add_eq h
  exact level_same rfl rfl rfl

theorem fds_del_level (h : poolFdsDel build w p = some w') : Level w w' := by
  obtain ⟨s, rfl, _⟩ := fds_del_eq h
  exact level_same rfl rfl rfl

theorem set_events_level (h : poolFdsSetEvents build w p = some w') : Level w w' := by
  obtain ⟨s, rfl⟩ := set_events_eq h
  exact level_same rfl rfl rfl

theorem store_level (w : World) (p : EndPtr) (e : ConnEnd) : Level w (w.store p e) := level_same rfl rfl rfl

theorem close_level (w : World) (fd : Fd) : Level w (w.close fd) :=
  level_silent (silent_close fd) rfl rfl rfl

theorem free_level (w : World) (b : Nat) : Level w (w.free b) :=
  level_silent (by simp [Silent]) rfl rfl rfl

theorem set_conn_end_level (h : poolSetConnEnd build w end1 end2 = some w') : Level w w' := by
  unfold poolSetConnEnd at h
  simp only [Option.bind_eq_bind, Option.bind_eq_some_iff, Option.some.injEq] at h
  obtain ⟨e, _, w1, h1, rfl⟩ := h
  exact (fds_add_level h1).trans (level_same rfl rfl rfl)

theorem reset_level (h : poolResetConnEnd build w p cl = some w') : Level w w' := by
  unfold poolResetConnEnd at h
  simp only [Option.bind_eq_bind, Option.bind_eq_some_iff, Option.some.injEq] at h
  obtain ⟨w1, h1, e, _, rfl⟩ := h
  refine (fds_del_level h1).trans ?_
  cases cl with
  | false => exact level_same rfl rfl rfl
  | true => exact (close_level w1 e.sock).trans (level_same rfl rfl rfl)

/-- A removal is counted as such. -/
theorem remove_level (h : poolRemoveConn build cnf w fd notify = some w') : Level w w' := by
  unfold poolRemoveConn at h
  simp only [Option.bind_eq_bind, Option.bind_eq_some_iff] at h
  obtain ⟨⟨incEnd, dstEnd, full⟩, _, w1, h1, h⟩ := h
  have hcount : Level w { w with
      nConns := w.nConns - 1
      stats := { w.stats with connsClosed := w.stats.connsClosed + 1 } } := by
    intro m
    cases m with
    | conns =>
      simp only [gap, atPool, shown, ↓reduceIte]
      omega
    | _ => rfl
  have h01 := hcount.trans (reset_level h1)
  split at h
  · simp only [Option.bind_eq_some_iff, Option.some.injEq] at h
    obtain ⟨w2, h2, e, _, rfl⟩ := h
    refine (h01.trans (reset_level h2)).trans ?_
    cases notify with
    | false => exact free_level w2 _
    | true =>
      have hrouter : Level w2 { w2 with router := glbRouterDisconnect cnf 0 w2.router e.addr false } :=
        level_same rfl rfl rfl
      exact hrouter.trans (free_level _ _)
  · exact h01.trans (reset_level h)

theorem async_level (h : poolHandleAsyncConn w p out = some (w', error)) : Level w w' := by
  obtain ⟨e, rfl | ⟨fd, rfl | rfl⟩⟩ := async_shape h
  · exact store_level w p e
  · exact level_same rfl rfl rfl
  · refine Level.trans ?_ (close_level _ fd)
    exact level_same rfl rfl rfl

theorem add_conn_level (h : poolHandleAddConn build cnf w b out now = some w') : Level w w' := by
  unfold poolHandleAddConn at h
  simp only [Option.bind_eq_bind, Option.bind_eq_some_iff, Prod.exists] at h
  obtain ⟨e, _, w1, error, h1, h⟩ := h
  have h01 : Level w w1 := by
    split at h1
    · exact async_level h1
    · simp only [Option.some.injEq, Prod.mk.injEq] at h1
      exact h1.1 ▸ level_same rfl rfl rfl
  split at h
  · simp only [Option.bind_eq_some_iff, Option.some.injEq] at h
    obtain ⟨i, _, rfl⟩ := h
    have hrouter : Level w1 { w1 with router := glbRouterDisconnect cnf now w1.router e.addr true } :=
      level_same rfl rfl rfl
    exact ((h01.trans hrouter).trans (close_level _ _)).trans (free_level _ _)
  · simp only [Option.bind_eq_some_iff, Option.some.injEq] at h
    obtain ⟨w2, h2, w3, h3, rfl⟩ := h
    refine ((h01.trans (set_conn_end_level h2)).trans (set_conn_end_level h3)).trans ?_
    intro m
    cases m with
    | conns =>
      simp only [gap, atPool, shown, ↓reduceIte]
      omega
    | _ => rfl

theorem scan_level (h : scanLoop build cnf hit n fd count w = some w') : Level w w' := by
  refine scan_keeps (fun _ => True) Level (fun w => level_same rfl rfl rfl) ?_ trivial h
  intro w w1 fd p _ _ h1
  exact ⟨trivial, fun w' hw' => (remove_level h1).trans hw'⟩

theorem send_done_level (h : poolSendDone build w dst ev = some w') : Level w w' := by
  unfold poolSendDone at h
  simp only [Option.bind_eq_bind, Option.bind_eq_some_iff] at h
  obtain ⟨e, _, h⟩ := h
  have hcount : Level w { w with stats := { w.stats with nSend := w.stats.nSend + 1 } } := by
    intro m
    cases m <;> rfl
  split at h
  · exact (hcount.trans (store_level _ _ _)).trans (set_events_level h)
  · exact Option.some.inj h ▸ hcount

theorem send_resume_level (h : poolSendResume build w dst src = some w') : Level w w' := by
  unfold poolSendResume at h
  cases src with
  | none => exact Option.some.inj h ▸ level_same rfl rfl rfl
  | some src =>
    simp only [Option.bind_eq_bind, Option.bind_eq_some_iff] at h
    obtain ⟨e, _, s, _, h⟩ := h
    split at h
    · exact (store_level _ _ _).trans (set_events_level h)
    · exact Option.some.inj h ▸ level_same rfl rfl rfl

theorem inc_ptr_iff (hk : Kinds c) : ptr b s = incPtr (ptr b s).block ↔ (side c s).kind = .client := by
  cases s with
  | inc => simp [ptr, incPtr, side, hk.1]
  | dst => simp [ptr, incPtr, dstPtr, side, hk.2, poolEndSize]

theorem dst_ptr_iff (hk : Kinds c) : ptr b s = dstPtr (ptr b s).block ↔ (side c s).kind ≠ .client := by
  cases s with
  | inc => simp [ptr, incPtr, dstPtr, side, hk.1, poolEndSize]
  | dst => simp [ptr, dstPtr, side, hk.2]

/-- A `send` is counted as it is. -/
theorem send_data_level (hb : w.heap b = some c) (hk : Kinds c) (s : Side)
    (hfill : (side c s).total ≤ (side c s).buf.length)
    (h : poolSendData build cnf w (ptr b s) src out = some (w', ret)) : Level w w' := by
  have hlen : ((side c s).pending.take (sendLen (side c s) out)).length = sendLen (side c s) out := by
    rw [List.length_take, ConnEnd.pending, window_length _ _ _ hfill]
    exact Nat.min_eq_left (Nat.min_le_right _ _)
  unfold poolSendData at h
  simp only [deref_ptr hb, Option.bind_eq_bind, Option.bind_some] at h
  change (if 0 < sendLen (side c s) out then _ else _) = _ at h
  split at h
  · simp only [Option.bind_eq_some_iff, Option.some.injEq, Prod.mk.injEq] at h
    obtain ⟨w1, h1, w2, h2, rfl, _⟩ := h
    refine Level.trans ?_ ((store_level _ _ _).trans ((send_resume_level h1).trans (send_done_level h2)))
    refine level_event (sendEv b c s out) rfl rfl ?_
    intro m
    have hbytes : (List.take (sendLen (side c s) out) (side c s).pending).length =
        min out.ret ((side c s).total - (side c s).sent) := hlen
    cases m with
    | send => simp only [movesBy, sendEv, hbytes, shown]
    | tx => simp only [movesBy, sendEv, hbytes, shown, inc_ptr_iff hk]
    | _ => exact (Int.add_zero _).symm
  · rename_i hn
    have hnone : Level w { w with log := w.log ++ [sendEv b c s out] } := by
      have h0 : sendLen (side c s) out = 0 := Nat.eq_zero_of_not_pos hn
      refine level_event (sendEv b c s out) rfl rfl ?_
      intro m
      have hmove : movesBy m (sendEv b c s out) = 0 := by cases m <;> simp [movesBy, sendEv, h0]
      rw [hmove, Int.add_zero]
    split at h
    · simp only [Option.bind_eq_some_iff, Option.some.injEq, Prod.mk.injEq] at h
      obtain ⟨w1, h1, rfl, _⟩ := h
      exact hnone.trans (send_done_level h1)
    · split at h
      · split at h
        · simp only [Option.bind_eq_some_iff, Option.some.injEq, Prod.mk.injEq] at h
          obtain ⟨w1, h1, rfl, _⟩ := h
          exact hnone.trans (remove_level h1)
        · simp only [Option.some.injEq, Prod.mk.injEq] at h
          exact h.1 ▸ hnone
      · simp only [Option.bind_eq_some_iff, Option.some.injEq, Prod.mk.injEq] at h
        obtain ⟨w1, h1, rfl, _⟩ := h
        exact hnone.trans (send_done_level h1)

/-- What `n` bytes for the end `e` should move a counter by. -/
def arrival (m : Meter) (e : ConnEnd) (n : Nat) : Nat :=
  match m with
  | .recv => n
  | .rx => if e.kind ≠ .client then n else 0
  | _ => 0

@[simp] theorem arrival_zero (m : Meter) (e : ConnEnd) : arrival m e 0 = 0 := by
  cases m <;> simp [arrival]

theorem moves_recv (hk : Kinds c) (m : Meter) (bytes : List UInt8) :
    movesBy m (recvEv b c s bytes) = arrival m (side c s) bytes.length := by
  cases m with
  | rx =>
    simp only [movesBy, recvEv, arrival, dst_ptr_iff hk]
    split <;> rfl
  | _ => rfl

theorem recv_gap (hk : Kinds c) (m : Meter) (bytes : List UInt8) :
    gap m (logs w [recvEv b c s bytes]) = gap m w + arrival m (side c s) bytes.length := by
  have hev : happened m [recvEv b c s bytes] = arrival m (side c s) bytes.length := by
    rw [← moves_recv (b := b) hk]
    simp [happened]
  simp only [gap, logs, happened_append, hev]
  omega

theorem count_recv_level (w : World) : Level w (poolCountRecv w) := by
  intro m
  cases m <;> rfl

theorem read_done_gap (hb : w.heap b = some c) (h : poolReadDone build w (ptr b s) n = some w') (m : Meter) :
    gap m w' = gap m w - arrival m (side c s) n := by
  unfold poolReadDone at h
  simp only [deref_ptr hb, Option.bind_eq_bind, Option.bind_some, Option.bind_eq_some_iff,
    Option.some.injEq] at h
  obtain ⟨w1, h1, rfl⟩ := h
  have hlevel : Level w w1 := by
    split at h1
    · simp only [Option.bind_eq_some_iff] at h1
      obtain ⟨q, _, e, _, h1⟩ := h1
      exact (store_level _ _ _).trans (set_events_level h1)
    · exact Option.some.inj h1 ▸ level_same rfl rfl rfl
  rw [← hlevel m]
  cases m with
  | recv =>
    simp only [gap, shown, arrival]
    omega
  | rx =>
    simp only [gap, shown, arrival]
    split <;> omega
  | _ => exact (Int.sub_zero _).symm

/-- The bytes that one call of `pool_handle_read` receives and does not count: the end
they are for turns out to have no peer. -/
def uncounted (m : Meter) (e : ConnEnd) (recv : RecvOut) (send : SendOut) : Nat :=
  match recv with
  | .error _ => 0
  | .data avail =>
    if e.total < poolBufSize ∧ e.kind ≠ .incomplete ∧ send.ret = 0 ∧ send.errno = EPIPE then
      arrival m e (received e avail).length
    else 0

/-- With something to send, `send` takes nothing exactly if the kernel does. -/
theorem fill_len (send : SendOut) (hsent : e.sent ≤ e.total) (h0 : ¬ bytes.length = 0) :
    sendLen (fill e bytes) send = 0 ↔ send.ret = 0 := by
  have hleft : 0 < (fill e bytes).total - (fill e bytes).sent := by
    simp only [fill]
    omega
  unfold sendLen
  omega

theorem read_gap (hh : Held w b c) (hk : Kinds c) (s : Side)
    (hfill : (side c s).total ≤ (side c s).buf.length) (hsent : (side c s).sent ≤ (side c s).total)
    (h : poolHandleRead build cnf w (side c s.other).sock recv send = some (w', ret)) (m : Meter) :
    gap m w' = gap m w + uncounted m (side c s) recv send := by
  have hnil : gap m (logs w [recvEv b c s []]) = gap m w := by
    rw [recv_gap hk]
    simp
  unfold poolHandleRead at h
  rw [hh.route s.other, other_other] at h
  simp only [Option.bind_eq_bind, Option.bind_some, deref_ptr hh.block] at h
  split at h
  · rename_i hroom
    cases recv with
    | error errno =>
      simp only [Option.some.injEq, Prod.mk.injEq] at h
      obtain ⟨rfl, _⟩ := h
      rw [count_recv_level, uncounted, Int.natCast_zero, Int.add_zero]
      exact hnil
    | data avail =>
      generalize hbytes : received (side c s) avail = bytes
      have hlost : uncounted m (side c s) (.data avail) send =
          if (side c s).kind ≠ .incomplete ∧ send.ret = 0 ∧ send.errno = EPIPE then
            arrival m (side c s) bytes.length else 0 := by
        simp [uncounted, hroom, hbytes]
      rw [hlost]
      simp only at h
      rw [show avail.take (poolBufSize - (side c s).total) = bytes from hbytes] at h
      split at h
      · rename_i h0
        obtain rfl : bytes = [] := List.length_eq_zero_iff.mp h0
        simp only [Option.bind_eq_some_iff, Option.some.injEq, Prod.mk.injEq] at h
        obtain ⟨w1, h1, rfl, _⟩ := h
        rw [count_recv_level, remove_level h1, List.length_nil, arrival_zero, ite_self, Int.natCast_zero,
          Int.add_zero]
        exact hnil
      · rename_i h0
        have hheld : Held (putConn (logs w [recvEv b c s bytes]) b (filled c s bytes)) b
            (filled c s bytes) := held_put (held_logs hh _) (filled_socks c s bytes)
        have hfk := filled_kinds hk s bytes
        simp only [Option.bind_eq_some_iff, Prod.exists] at h
        obtain ⟨w1, err, h1, h⟩ := h
        rw [store_ptr (by exact hh.block)] at h1
        have hend : side (filled c s bytes) s = fill (side c s) bytes := side_set _ _ _
        have hfull : (side (filled c s bytes) s).total ≤ (side (filled c s bytes) s).buf.length := by
          rw [hend]
          exact overwrite_length _ _ _ hfill
        have hgap : gap m w1 = gap m w + arrival m (side c s) bytes.length := by
          rw [send_data_level hheld.block hfk s hfull h1 m]
          exact recv_gap hk m bytes
        have hzero := fill_len send hsent h0
        rw [← hend] at hzero
        have hkind : (side (filled c s bytes) s).kind = (side c s).kind := by
          rw [hend]
          rfl
        rcases send_data_cases hheld hfk s false h1 with ⟨hne, hspares, hw1⟩ | ⟨he, hn, herr, hki, _⟩
        · simp only [hne, ↓reduceIte, Option.bind_eq_some_iff, Option.some.injEq, Prod.mk.injEq] at h
          obtain ⟨w2, h2, rfl, _⟩ := h
          have hkept : ¬ ((side c s).kind ≠ .incomplete ∧ send.ret = 0 ∧ send.errno = EPIPE) :=
            fun hg => hg.1 (hkind ▸ hspares (hzero.mpr hg.2.1) hg.2.2)
          rw [if_neg hkept, count_recv_level, read_done_gap (bare_of_put hw1) h2, hgap]
          have hsame : arrival m (side (sentConn (filled c s bytes) s send false) s) bytes.length =
              arrival m (side c s) bytes.length := by
            unfold arrival
            rw [(sent_conn_fixed _ s send false s).2.1, hkind]
          rw [hsame]
          omega
        · simp only [he, ↓reduceIte, Option.some.injEq, Prod.mk.injEq] at h
          rw [if_pos ⟨hkind ▸ hki, hzero.mp hn, herr⟩, ← h.1]
          exact hgap
  · rename_i hroom
    simp only [Option.some.injEq, Prod.mk.injEq] at h
    obtain ⟨rfl, _⟩ := h
    have hzero : uncounted m (side c s) recv send = 0 := by
      cases recv <;> simp [uncounted, hroom]
    rw [hzero]
    simp

theorem conn_complete_level (h : poolHandleConnComplete build cnf w dstEnd env = some (w', ret)) :
    Level w w' := by
  unfold poolHandleConnComplete at h
  simp only [Option.bind_eq_bind, Option.bind_eq_some_iff] at h
  obtain ⟨e, _, h⟩ := h
  split at h
  · simp only [Option.bind_eq_some_iff] at h
    obtain ⟨i, _, h⟩ := h
    have hrouter : ∀ r : Router, Level w { w with router := r } := fun r => level_same rfl rfl rfl
    split at h
    · simp only [Option.bind_eq_some_iff, Option.some.injEq, Prod.mk.injEq] at h
      obtain ⟨w1, h1, e1, _, w2, h2, rfl, _⟩ := h
      exact (((hrouter _).trans (store_level _ _ _)).trans (remove_level h1)).trans
        ((store_level _ _ _).trans (add_conn_level h2))
    · simp only [Option.bind_eq_some_iff, Option.some.injEq, Prod.mk.injEq] at h
      obtain ⟨w1, h1, rfl, _⟩ := h
      exact ((hrouter _).trans (store_level _ _ _)).trans (remove_level h1)
  · simp only [Option.bind_eq_some_iff, Option.some.injEq, Prod.mk.injEq] at h
    obtain ⟨w1, h1, rfl, _⟩ := h
    exact (store_level _ _ _).trans (set_events_level h1)

theorem write_level (hh : Held w b c) (hk : Kinds c) (s : Side)
    (hfill : (side c s).total ≤ (side c s).buf.length)
    (h : poolHandleWrite build cnf w (side c s).sock env send = some w') : Level w w' := by
  unfold poolHandleWrite at h
  simp only [Option.bind_eq_bind, hh.route s, Option.bind_some, deref_ptr hh.block,
    hh.route s.other, other_other] at h
  obtain ⟨⟨w1, failed⟩, h1, h⟩ := Option.bind_eq_some_iff.mp h
  have h01 : Level w w1 := by
    split at h1
    · exact conn_complete_level h1
    · simp only [Option.some.injEq, Prod.mk.injEq] at h1
      exact h1.1 ▸ level_same rfl rfl rfl
  by_cases hf : failed = 0
  · have hw1 : bare w1 = bare (putConn w b (settled c s)) := by
      unfold settled
      split at h1
      · rename_i hi
        obtain ⟨rfl, hid⟩ := kind_incomplete hk hi
        rw [if_pos hi]
        by_cases he : env.soError = 0
        · exact (conn_succeeded hh.block he h1).2
        · exact absurd hf (conn_failed send hh hk hid he h1).1
      · rename_i hi
        simp only [Option.some.injEq, Prod.mk.injEq] at h1
        rw [if_neg hi, put_conn_same hh.block, h1.1]
    simp only [hf, ne_eq, not_true_eq_false, ↓reduceIte, deref_ptr (bare_of_put hw1), Option.bind_some] at h
    split at h
    · simp only [Option.bind_eq_some_iff, Option.some.injEq, Prod.exists] at h
      obtain ⟨w2, ret, h2, rfl⟩ := h
      refine h01.trans (send_data_level (bare_of_put hw1) (settled_kinds hk s) s ?_ h2)
      unfold settled
      split
      · cases s <;> exact hfill
      · exact hfill
    · exact Option.some.inj h ▸ h01
  · simp only [hf, ne_eq, not_false_eq_true, ↓reduceIte, Option.some.injEq] at h
    exact h ▸ h01

/-- A ctl leaves the counters as they are, or hands them over. -/
theorem ctl_gap (h : poolReadCtl build cnf w env = some w') (m : Meter) :
    gap m w' = gap m w + shown m (poolReadStats build cnf w env) := by
  have hzero : shown m glbZeroStats = 0 := by cases m <;> rfl
  have h0 : ∀ q, Level w (fetched w q) := by
    intro q m
    cases m <;> rfl
  have hc := ctl_read h
  generalize poolReadStats build cnf w env = st at hc ⊢
  cases hc with
  | addConn _ h2 =>
    rw [hzero, Int.add_zero]
    exact (h0 _).trans (add_conn_level h2) m
  | dropDst _ h2 =>
    rw [hzero, Int.add_zero]
    exact (h0 _).trans (scan_level h2) m
  | stats _ => cases m <;> simp [gap, shown, fetched, glbZeroStats]
  | @shutdown q u _ h3 =>
    rw [hzero, Int.add_zero]
    exact (((h0 q).trans (scan_level h3)).trans (close_level u u.ctlRecv)).trans
      (level_same rfl rfl rfl) m

end handlers

section daemon

/-- What all counters together, reported or not, are behind. -/
def behind (m : Meter) (x : Daemon × Stats) : Int :=
  happened m x.1.log + (x.1.pools.map fun p => atPool m p.nConns).sum -
    (shown m x.2 + (x.1.pools.map fun p => shown m p.stats).sum)

theorem sum_set (f : Pool → Int) (ps : List Pool) (hp : ps[i]? = some p) (q : Pool) :
    ((ps.set i q).map f).sum = (ps.map f).sum + (f q - f p) := by
  induction ps generalizing i with
  | nil => simp at hp
  | cons x ps ih =>
    cases i with
    | zero =>
      simp only [List.getElem?_cons_zero, Option.some.injEq] at hp
      subst hp
      simp only [List.set_cons_zero, List.map_cons, List.sum_cons]
      omega
    | succ i =>
      have := ih (by simpa using hp)
      simp only [List.set_cons_succ, List.map_cons, List.sum_cons]
      omega

/-- What a handler does to its own pool shows in the sums. -/
theorem behind_put (m : Meter) (st : Stats) (hp : d.pools[i]? = some p) (w' : World) :
    behind m (d.put i w', st) = behind m (d, st) + (gap m w' - gap m (d.world p)) := by
  have h1 := sum_set (fun p => atPool m p.nConns) d.pools hp w'.toPool
  have h2 := sum_set (fun p => shown m p.stats) d.pools hp w'.toPool
  simp only [behind, gap, Daemon.put, Daemon.world, h1, h2]
  omega

/-- A step of a thread that is not a pool's. -/
def NotPool (d d' : Daemon) : Prop :=
  ∃ l, Silent l ∧ d'.log = d.log ++ l ∧
    d'.pools.map (fun p => (p.nConns, p.stats)) = d.pools.map (fun p => (p.nConns, p.stats))

theorem NotPool.quiet (hlog : d'.log = d.log)
    (hp : d'.pools.map (fun p => (p.nConns, p.stats)) = d.pools.map (fun p => (p.nConns, p.stats))) :
    NotPool d d' := ⟨[], by simp [Silent], by simp [hlog], hp⟩

theorem NotPool.behind (h : NotPool d d') (m : Meter) (st : Stats) : behind m (d', st) = behind m (d, st) := by
  obtain ⟨l, hl, hlog, hp⟩ := h
  have hsum : ∀ (f : Int × Stats → Int) (e : Daemon), (e.pools.map fun p => f (p.nConns, p.stats)) =
      (e.pools.map fun p => (p.nConns, p.stats)).map f := by
    intro f e
    rw [List.map_map]
    rfl
  have h1 := hsum (fun x => atPool m x.1)
  have h2 := hsum (fun x => shown m x.2)
  simp only at h1 h2
  simp only [Traffic.behind, hlog, happened_append, happened_silent m hl, h1, h2, hp]
  omega

theorem signalled_aside (h : Signalled d d') (hlog : d'.log = d.log) : NotPool d d' := by
  obtain ⟨ctls, _, hp⟩ := h
  refine .quiet hlog ?_
  rw [hp, List.map_map]
  rfl

theorem accept_aside (h : AcceptFate cnf d fd addr env d') : NotPool d d' := by
  cases h with
  | turned l hl => exact ⟨l, hl, rfl, rfl⟩
  | none r l hl _ => exact ⟨l, hl, rfl, rfl⟩
  | noneSync r l hl _ => exact ⟨l, hl, rfl, rfl⟩
  | chosen r dst _ => exact .quiet rfl rfl
  | connecting r i sock _ _ _ => exact .quiet rfl rfl

theorem connected_aside (h : ConnectedFate cnf d inc addr sock hint i now env d') : NotPool d d' := by
  cases h with
  | retry r j _ => exact .quiet rfl rfl
  | failed r _ => exact ⟨[.close sock, .close inc], by simp [Silent], by simp [Daemon.close], rfl⟩
  | done dst _ => exact .quiet rfl rfl
  | pending dst _ => exact ⟨[.close sock], silent_close sock, rfl, rfl⟩

theorem add_aside (h : AddFate cnf d inc addr sock dst complete d') : NotPool d d' := by
  have htwo : Silent [Ev.close sock, Ev.close inc] := by simp [Silent]
  cases h with
  | noMemory => exact ⟨_, htwo, by simp [listenerUndo, Daemon.close], rfl⟩
  | unsent => exact ⟨_, htwo, by simp [listenerUndo, Daemon.close, allocated], rfl⟩
  | queued => exact .quiet rfl (RouterFrame.map_modify _ _ _ _ (fun _ => rfl))

/-- The bytes that one step of the daemon receives and does not count. -/
def loss (m : Meter) (d : Daemon) : DaemonOp → Nat
  | .read i fd recv send => ((readEnd d i fd).map fun e => uncounted m e recv send).getD 0
  | _ => 0

theorem loss_other (h1 : m ≠ .recv) (h2 : m ≠ .rx) (d : Daemon) (op : DaemonOp) : loss m d op = 0 := by
  cases op with
  | read i fd recv send =>
    simp only [loss]
    cases readEnd d i fd with
    | none => rfl
    | some e =>
      cases recv with
      | error errno => rfl
      | data avail =>
        have hz : arrival m e (received e avail).length = 0 := by
          cases m with
          | recv => exact absurd rfl h1
          | rx => exact absurd rfl h2
          | _ => rfl
        simp [uncounted, hz]
  | _ => rfl

theorem report_cases (h : reportStep build cnf ctrl x op = some x') :
    daemonStep build cnf ctrl x.1 op = some x'.1 ∧
      ((∃ i env p, op = .ctl i env ∧ x.1.pools[i]? = some p ∧
          x'.2 = glbPoolStatsAdd x.2 (poolReadStats build cnf (x.1.world p) env)) ∨
        (∀ i env, op ≠ .ctl i env) ∧ x'.2 = x.2) := by
  unfold reportStep at h
  obtain ⟨d', hd, h⟩ := Option.bind_eq_some_iff.mp h
  cases op with
  | ctl i env =>
    obtain ⟨p, hp, h⟩ := Option.bind_eq_some_iff.mp h
    obtain rfl := Option.some.inj h
    exact ⟨hd, Or.inl ⟨i, env, p, rfl, hp, rfl⟩⟩
  | _ =>
    obtain rfl := Option.some.inj h
    exact ⟨hd, Or.inr ⟨by simp, rfl⟩⟩

theorem shown_add (m : Meter) (left right : Stats) :
    shown m (glbPoolStatsAdd left right) = shown m left + shown m right := by
  cases m with
  | conns =>
    simp only [shown, glbPoolStatsAdd]
    omega
  | _ => rfl

theorem report_behind (m : Meter) (d : Daemon) (st st' : Stats) :
    behind m (d, glbPoolStatsAdd st st') = behind m (d, st) - shown m st' := by
  simp only [behind, shown_add]
  omega

/-- Each step of the daemon leaves the counters as far behind as they were, but for
what a read loses. -/
theorem report_step (hd : Flowing x.1) (h : reportStep build cnf ctrl x op = some x') (m : Meter) :
    behind m x' = behind m x + loss m x.1 op := by
  obtain ⟨d, st⟩ := x
  obtain ⟨d', st'⟩ := x'
  obtain ⟨hstep, hrep⟩ := report_cases h
  simp only at hd hstep hrep ⊢
  obtain ⟨⟨claim, home, L⟩, S⟩ := hd
  have hfill : ∀ {b c} (s : Side), d.heap b = some c →
      (side c s).total ≤ (side c s).buf.length ∧ (side c s).sent ≤ (side c s).total := by
    intro b c s hb
    have hf := S.ends hb s
    exact ⟨hf.filled, hf.sent_le⟩
  have aside : (∀ i env, op ≠ .ctl i env) → loss m d op = 0 → NotPool d d' →
      behind m (d', st') = behind m (d, st) + loss m d op := by
    intro hop hz ha
    obtain rfl : st' = st := (hrep.resolve_left (fun ⟨i, env, _, he, _⟩ => hop i env he)).2
    rw [hz, ha.behind, Int.natCast_zero, Int.add_zero]
  cases op with
  | accept fd addr sock env =>
    obtain ⟨_, _, _, hf⟩ := accept_cases hstep
    exact aside (by simp) rfl (accept_aside hf)
  | connected error now env =>
    obtain ⟨_, _, _, _, _, _, hf⟩ := connected_cases hstep
    exact aside (by simp) rfl (connected_aside hf)
  | addConn malloc write =>
    obtain ⟨_, _, _, _, _, _, hf⟩ := add_cases hstep
    exact aside (by simp) rfl (add_aside hf)
  | ctl i env =>
    have hon : d.onPool i (fun w => poolReadCtl build cnf w env) = some d' := hstep
    obtain ⟨p, w', hp, _, hw, rfl⟩ := on_pool hon
    obtain ⟨i', env', p', he, hp', rfl⟩ := hrep.resolve_right (fun h => h.1 i env rfl)
    obtain ⟨rfl, rfl⟩ : i = i' ∧ env = env' := by simpa using he
    obtain rfl := Option.some.inj (hp.symm.trans hp')
    have hz : loss m d (.ctl i env) = 0 := rfl
    rw [hz, report_behind, behind_put m st hp, ctl_gap hw m]
    omega
  | read i fd recv send =>
    have hon : d.onPool i (fun w => (poolHandleRead build cnf w fd recv send).map Prod.fst) =
      some d' := hstep
    obtain ⟨p, w', hp, _, hw, rfl⟩ := on_pool hon
    obtain rfl : st' = st := (hrep.resolve_left (by simp)).2
    obtain ⟨⟨w1, ret⟩, h1, rfl⟩ := Option.map_eq_some_iff.mp hw
    have L' := pool_ledger L hp
    obtain ⟨q, hq⟩ := read_routed h1
    obtain ⟨b, c, s, _, hh, hk, rfl⟩ := served L' hq
    rw [← other_other s] at h1 ⊢
    obtain ⟨hf, hsent⟩ := hfill s.other hh.block
    have hz : loss m d (.read i (side c s.other.other).sock recv send) =
        uncounted m (side c s.other) recv send := by
      simp only [loss, held_read_end hp hh s.other, Option.map_some, Option.getD_some]
    rw [hz, behind_put m st' hp, read_gap hh hk s.other hf hsent h1 m]
    omega
  | write i fd env send =>
    have hon : d.onPool i (fun w => poolHandleWrite build cnf w fd env send) = some d' := hstep
    obtain ⟨p, w', hp, _, hw, rfl⟩ := on_pool hon
    obtain rfl : st' = st := (hrep.resolve_left (by simp)).2
    have L' := pool_ledger L hp
    obtain ⟨q, hq⟩ := write_routed hw
    obtain ⟨b, c, s, _, hh, hk, rfl⟩ := served L' hq
    have hz : loss m d (.write i (side c s).sock env send) = 0 := rfl
    rw [hz, behind_put m st' hp, write_level hh hk s (hfill s hh.block).1 hw m]
    omega
  | request req env =>
    obtain ⟨hs, _, _, hlog, _⟩ := request_frame hstep
    exact aside (by simp) rfl (signalled_aside hs hlog)
  | drop dst =>
    simp only [daemonStep, Option.some.injEq] at hstep
    exact aside (by simp) rfl (hstep ▸ signalled_aside (bcast_signalled _ (by simp)) rfl)
  | destroy =>
    simp only [daemonStep, Option.some.injEq] at hstep
    exact aside (by simp) rfl (hstep ▸ signalled_aside (bcast_signalled _ (by simp)) rfl)

/-- The blocks that a pool serves, counted. -/
theorem orderly_conns (hd : TablesOrderly build d) (hp : p ∈ d.pools) :
    ∃ blocks : List Nat, blocks.Nodup ∧ (blocks.length : Int) = p.nConns ∧
      ∀ b, b ∈ blocks ↔ ∃ c, Held (d.world p) b c := by
  obtain ⟨⟨claim, home, L⟩, ht⟩ := hd
  obtain ⟨i, hi⟩ := List.mem_iff_getElem?.mp hp
  obtain ⟨T, S⟩ := ht i p hi
  have hpaired : Paired (d.world p) := by
    intro fd q hq
    obtain ⟨b, c, s, _, hh, _, hfd⟩ := served (w := d.world p) ((view_world hi).symm ▸ L) hq
    exact ⟨b, c, s, hh, hfd⟩
  have hlen := conn_fds_length T hpaired
  have hsize : ((connFds (d.world p)).length : Int) = 2 * p.nConns := S.size
  exact ⟨servedBlocks (d.world p), served_blocks_nodup T hpaired, by omega,
    fun b => mem_served_blocks T hpaired⟩

end daemon

/-- What has been reported so far of a counter, and what has not. -/
def reportedBy (m : Meter) (d : Daemon) (reported : Stats) : Int :=
  shown m reported + (d.pools.map fun p => shown m p.stats).sum

theorem behind_bytes (hm : m ≠ .conns) (d : Daemon) (reported : Stats) :
    behind m (d, reported) = 0 ↔ reportedBy m d reported = happened m d.log := by
  have hz : (d.pools.map fun p => atPool m p.nConns).sum = 0 := by
    apply List.sum_eq_zero
    simp [atPool, hm]
  simp only [behind, reportedBy, hz]
  omega

/-- The counters of bytes sent and of connections are exact in every run. Those of bytes
received are exact as long as no read loses what it received, and from then on never
again. -/
theorem traffic_exact (hn : pipes.Nodup) (hu : ∀ fd ∈ pipes, 0 < fd ∧ used fd = true)
    (h : exec (reportStep build cnf ctrl) (Daemon.init pipes used router, glbZeroStats) ops =
      some (d, reported)) :
    reportedBy .send d reported = happened .send d.log ∧
    reportedBy .tx d reported = happened .tx d.log ∧
    reportedBy .conns d reported = (d.pools.map fun p => p.nConns).sum ∧
    (∀ p ∈ d.pools, ∃ blocks : List Nat, blocks.Nodup ∧ (blocks.length : Int) = p.nConns ∧
      ∀ b, b ∈ blocks ↔ ∃ c, Held (d.world p) b c) ∧
    (reportedBy .recv d reported = happened .recv d.log ↔
      Along (reportStep build cnf ctrl) (fun x op => loss .recv x.1 op = 0)
        (Daemon.init pipes used router, glbZeroStats) ops) ∧
    (reportedBy .rx d reported = happened .rx d.log ↔
      Along (reportStep build cnf ctrl) (fun x op => loss .rx x.1 op = 0)
        (Daemon.init pipes used router, glbZeroStats) ops) := by
  let inv : Daemon × Stats → Prop := fun x => Flowing x.1 ∧ TablesOrderly build x.1
  have hinit : inv (Daemon.init pipes used router, glbZeroStats) :=
    ⟨⟨registered_init hn hu router, by simp [Daemon.init], by simp [Daemon.init], by simp [Daemon.init]⟩,
      tables_orderly_init build hn hu router⟩
  have hkeep : ∀ x op x', inv x → reportStep build cnf ctrl x op = some x' → inv x' := by
    intro x op x' hx hs
    obtain ⟨hstep, _⟩ := report_cases hs
    exact ⟨flowing_step hx.1 hstep, tables_orderly_step hx.2 hstep⟩
  have hstart : ∀ m, behind m (Daemon.init pipes used router, glbZeroStats) = 0 := by
    intro m
    have hsum : ∀ f : Pool → Int, (∀ fd, f (Pool.init fd) = 0) →
        ((Daemon.init pipes used router).pools.map f).sum = 0 := by
      intro f hf
      apply List.sum_eq_zero
      simp [Daemon.init, hf]
    rw [behind, hsum _ (fun _ => by cases m <;> rfl), hsum _ (fun _ => by cases m <;> rfl)]
    cases m <;> rfl
  have hfree : ∀ m, behind m (d, reported) = 0 ↔
      Along (reportStep build cnf ctrl) (fun x op => loss m x.1 op = 0)
        (Daemon.init pipes used router, glbZeroStats) ops := by
    intro m
    have hcost : ∀ x op x', inv x → reportStep build cnf ctrl x op = some x' →
        inv x' ∧ behind m x' = behind m x + loss m x.1 op :=
      fun x op x' hx hs => ⟨hkeep x op x' hx hs, report_step hx.1 hs m⟩
    have hiff := (exec_free_iff hcost hinit h).2
    rwa [hstart] at hiff
  have hnever : ∀ m, m ≠ .recv → m ≠ .rx → behind m (d, reported) = 0 := by
    intro m h1 h2
    rw [hfree]
    exact along_invariant hkeep (fun x op _ => loss_other h1 h2 x.1 op) hinit ops
  have hconns := hnever .conns (by simp) (by simp)
  refine ⟨(behind_bytes (by simp) d reported).mp (hnever .send (by simp) (by simp)),
    (behind_bytes (by simp) d reported).mp (hnever .tx (by simp) (by simp)), ?_,
    fun p hp => orderly_conns (exec_invariant hkeep hinit h).2 hp, ?_, ?_⟩
  · have hz : happened .conns d.log = 0 := by
      apply List.sum_eq_zero
      intro x hx
      obtain ⟨ev, _, rfl⟩ := List.mem_map.mp hx
      cases ev <;> rfl
    simp only [behind, hz, atPool, ↓reduceIte] at hconns
    simp only [reportedBy]
    omega
  · rw [← behind_bytes (by simp), hfree]
  · rw [← behind_bytes (by simp), hfree]

/-- The first client's server accepts the connection, and the client sends three bytes. -/
def clientSends (send : SendOut) : List DaemonOp :=
  connectA ++ [.write 0 7 ⟨0, 100, chooseAt 100, .noSocket 1, 100⟩ ⟨0, 0⟩,
    .read 0 6 (.data [1, 2, 3]) send]

/-- Two bytes are passed on, and a report is asked for before the third. -/
def reportBetween : List DaemonOp :=
  clientSends ⟨2, 0⟩ ++ [.request .getstat ⟨100, 100, true⟩, .ctl 0 ⟨.noSocket 1, 100, fun _ => serverB⟩,
    .write 0 7 ⟨0, 100, chooseAt 100, .noSocket 1, 100⟩ ⟨1, 0⟩]

def reportRun (ops : List DaemonOp) : Daemon × Stats :=
  (exec (reportStep .epoll leastConns noWdog) (oneDaemon, glbZeroStats) ops).getD (oneDaemon, glbZeroStats)

theorem traffic_exact_report_between :
    (shown .send (reportRun reportBetween).2 = 2 ∧
      reportedBy .send (reportRun reportBetween).1 (reportRun reportBetween).2 = 3) ∧
    happened .send (reportRun reportBetween).1.log = 3 ∧
    (reportedBy .recv (reportRun reportBetween).1 (reportRun reportBetween).2 =
        happened .recv (reportRun reportBetween).1.log ↔
      Along (reportStep .epoll leastConns noWdog) (fun x op => loss .recv x.1 op = 0)
        (oneDaemon, glbZeroStats) reportBetween) := by
  have hrun : exec (reportStep .epoll leastConns noWdog) (oneDaemon, glbZeroStats) reportBetween =
      some ((reportRun reportBetween).1, (reportRun reportBetween).2) :=
    exec_getD (oneDaemon, glbZeroStats) (by decide +kernel)
  have hall := traffic_exact (by simp) (by decide) hrun
  have hshown : shown .send (reportRun reportBetween).2 = 2 := by decide +kernel
  have hsend : reportedBy .send (reportRun reportBetween).1 (reportRun reportBetween).2 = 3 := by
    decide +kernel
  exact ⟨⟨hshown, hsend⟩, hall.1.symm.trans hsend, hall.2.2.2.2.1⟩

/-- The server is gone when the client's three bytes are passed on. They have been
received and are counted nowhere. -/
theorem recv_uncounted_broken_pipe :
    ∃ d reported, exec (reportStep .epoll leastConns noWdog) (oneDaemon, glbZeroStats)
        (clientSends ⟨0, EPIPE⟩) = some (d, reported) ∧
      happened .recv d.log = 3 ∧ reportedBy .recv d reported = 0 ∧
      happened .rx d.log = 3 ∧ reportedBy .rx d reported = 0 := by
  refine ⟨_, _, exec_getD (oneDaemon, glbZeroStats) (by decide +kernel), ?_⟩
  decide +kernel

end Glb.Proofs.Traffic
