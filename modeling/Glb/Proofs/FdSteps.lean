import Glb.Proofs.FdTable
import Glb.Proofs.PoolEvents

namespace Glb.Proofs.FdSteps
open Function Lib.SwapRemove PoolFrame PoolEvents Ownership FdTable

variable {build : Build} {cnf : Cnf} {w w' w1 w2 : World} {b : Nat} {c c' : Conn} {s : Side} {fd : Fd}

/-- What the kernel reported for each slot of the set. -/
def marks (w : World) : List (Fd × BitVec 32) := w.fdset.pollfds.map fun x => (x.fd, x.revents)

theorem marks_fds (w : World) : (marks w).map Prod.fst = w.fdset.pollfds.map PollFd.fd := by
  simp [marks]

theorem marks_conn_fds (h : marks w' = marks w) : connFds w' = connFds w := by
  unfold connFds
  rw [← marks_fds, h, marks_fds]

/-- At most the events that some slots wait for differ. -/
structure Masked (w w' : World) : Prop where
  marks : marks w' = marks w
  len : w'.fdset.pollfdsLen = w.fdset.pollfdsLen
  conns : w'.nConns = w.nConns

theorem Masked.refl (w : World) : Masked w w := ⟨rfl, rfl, rfl⟩

theorem Masked.trans (h : Masked w w1) (h' : Masked w1 w2) : Masked w w2 :=
  ⟨h'.marks.trans h.marks, h'.len.trans h.len, h'.conns.trans h.conns⟩

section masks

/-- The end of a connection whose mask `pool_fds_set_events` is about to copy. -/
structure Remask (c c' : Conn) (s : Side) : Prop where
  socks : ∀ t, (side c' t).sock = (side c t).sock
  kinds : Kinds c'
  other : (side c' s.other).events = (side c s.other).events

theorem set_events_epoll (T : Tabled .epoll w) (hh : Held w b c) (hr : Remask c c' s) :
    ∃ w', poolFdsSetEvents .epoll (putConn w b c') (ptr b s) = some w' ∧ Tabled .epoll w' ∧
      Masked w w' := by
  have hmem : (side c' s).sock ∈ w.fdset.pollfds.map PollFd.fd := by
    rw [hr.socks, T.slots]
    exact List.mem_cons_of_mem _ (T.routed_mem (held_routed hh s))
  obtain ⟨x, hx, hfd⟩ := List.mem_map.mp hmem
  have hany : w.fdset.pollfds.any (fun x => x.fd = (side c' s).sock) = true :=
    List.any_eq_true.mpr ⟨x, hx, by simpa using hfd⟩
  have hset : poolFdsSetEvents .epoll (putConn w b c') (ptr b s) =
      some { putConn w b c' with fdset := { w.fdset with pollfds := w.fdset.pollfds.map fun x =>
        if x.fd = (side c' s).sock then { x with events := (side c' s).events } else x } } := by
    unfold poolFdsSetEvents
    simp only [deref_ptr (put_conn_heap w b c'), Option.bind_eq_bind, Option.bind_some]
    rw [if_pos (by exact hany)]
    rfl
  refine ⟨_, hset, T.change hh _ hr.socks hr.kinds ?_ nofun, ⟨?_, rfl, rfl⟩⟩
  · rw [List.map_map]
    refine List.map_congr_left fun y _ => ?_
    simp only [comp_apply]
    split <;> rfl
  · simp only [marks, List.map_map]
    refine List.map_congr_left fun y _ => ?_
    simp only [comp_apply]
    split <;> rfl

theorem set_events_poll (T : Tabled .poll w) (hh : Held w b c) (hr : Remask c c' s) :
    ∃ w', poolFdsSetEvents .poll (putConn w b c') (ptr b s) = some w' ∧ Tabled .poll w' ∧
      Masked w w' := by
  obtain ⟨x, hx, hfd, _⟩ := T.idx rfl (held_routed hh s)
  have hlt : w.fdset.fdsIdx (ptr b s) < w.fdset.pollfds.length := (List.getElem?_eq_some_iff.mp hx).1
  have hset : poolFdsSetEvents .poll (putConn w b c') (ptr b s) =
      some { putConn w b c' with fdset := { w.fdset with
        pollfds := w.fdset.pollfds.modify (w.fdset.fdsIdx (ptr b s)) fun x =>
          { x with events := (side c' s).events } } } := by
    unfold poolFdsSetEvents
    simp only [deref_ptr (put_conn_heap w b c'), Option.bind_eq_bind, Option.bind_some]
    rw [if_pos (by exact hlt)]
    rfl
  have hget : ∀ j, (w.fdset.pollfds.modify (w.fdset.fdsIdx (ptr b s)) fun x =>
      { x with events := (side c' s).events })[j]? =
      w.fdset.pollfds[j]?.map fun x => if w.fdset.fdsIdx (ptr b s) = j then
        { x with events := (side c' s).events } else x := by
    intro j
    rw [List.getElem?_modify]
    split <;> cases w.fdset.pollfds[j]? <;> rfl
  have hmap : ∀ {α : Type} (f : PollFd → α) (_ : ∀ x ev, f { x with events := ev } = f x),
      (w.fdset.pollfds.modify (w.fdset.fdsIdx (ptr b s)) fun x =>
        { x with events := (side c' s).events }).map f = w.fdset.pollfds.map f := by
    intro α f hf
    refine List.ext_getElem? fun j => ?_
    rw [List.getElem?_map, List.getElem?_map, hget, Option.map_map]
    congr 1
    funext y
    simp only [comp_apply]
    split
    · exact hf y _
    · rfl
  refine ⟨_, hset, T.change hh _ hr.socks hr.kinds (hmap _ fun _ _ => rfl) ?_,
    ⟨hmap _ fun _ _ => rfl, rfl, rfl⟩⟩
  intro _ b1 c1 s1 h
  simp only [hget]
  rcases routed_put h with ⟨rfl, rfl⟩ | ⟨hne, h1⟩
  · obtain ⟨y, hy, hyfd, hyev⟩ := T.idx rfl (held_routed hh s1)
    rw [hy]
    refine ⟨_, rfl, ?_, ?_⟩
    · rw [hr.socks, ← hyfd]
      split <;> rfl
    · rcases side_cases s s1 with rfl | rfl
      · simp only [↓reduceIte]
      · have hidx : w.fdset.fdsIdx (ptr b1 s) ≠ w.fdset.fdsIdx (ptr b1 s.other) := by
          intro he
          rw [← he, hx, Option.some.injEq] at hy
          have hsock : (side c s).sock = (side c s.other).sock := hfd.symm.trans (hy ▸ hyfd)
          have hss := ((held_routed hh s).unique (held_routed hh s.other) hsock).2.2
          cases s <;> cases hss
        simp only [hidx, ↓reduceIte, hyev, hr.other]
  · obtain ⟨y, hy, hyfd, hyev⟩ := T.idx rfl h1
    refine ⟨y, ?_, hyfd, hyev⟩
    rw [hy, Option.map_some, if_neg]
    intro he
    rw [← he, hx, Option.some.injEq] at hy
    exact hne ((held_routed hh s).unique h1 (hfd.symm.trans (hy ▸ hyfd))).1.symm

/-- The connection in the block `b` is still served, on the descriptors it had in
`c`, and the slots are what they were. -/
structure Keeps (build : Build) (w w' : World) (b : Nat) (c : Conn) : Prop where
  tabled : Tabled build w'
  masked : Masked w w'
  held : ∃ c', Held w' b c' ∧ Kinds c' ∧ ∀ t, (side c' t).sock = (side c t).sock

theorem Keeps.refl (T : Tabled build w) (hh : Held w b c) (hk : Kinds c) : Keeps build w w b c :=
  ⟨T, .refl w, c, hh, hk, fun _ => rfl⟩

theorem Keeps.trans (h : Keeps build w w1 b c)
    (h' : ∀ c1, Held w1 b c1 → Kinds c1 → ∃ w2, f = some w2 ∧ Keeps build w1 w2 b c1) :
    ∃ w2, f = some w2 ∧ Keeps build w w2 b c := by
  obtain ⟨c1, hh, hk, hs⟩ := h.held
  obtain ⟨w2, h2, k2⟩ := h' c1 hh hk
  obtain ⟨c2, hh2, hk2, hs2⟩ := k2.held
  exact ⟨w2, h2, k2.tabled, h.masked.trans k2.masked, c2, hh2, hk2, fun t => (hs2 t).trans (hs t)⟩

/-- Counters and the log are not part of the table. -/
theorem Keeps.frame (h : Keeps build w w1 b c) (hh : w2.heap = w1.heap) (hr : w2.routeMap = w1.routeMap)
    (hc : w2.ctlRecv = w1.ctlRecv) (hf : w2.fdset = w1.fdset) (hn : w2.nConns = w1.nConns) :
    Keeps build w w2 b c := by
  obtain ⟨c1, h1, hk, hs⟩ := h.held
  refine ⟨h.tabled.frame hh hr hc hf, h.masked.trans ⟨by unfold marks; rw [hf], by rw [hf], hn⟩,
    c1, ⟨hh ▸ h1.block, hr ▸ h1.route⟩, hk, hs⟩

theorem Keeps.put (c' : Conn) (T : Tabled build w) (hh : Held w b c)
    (hs : ∀ t, (side c' t).sock = (side c t).sock) (hk : Kinds c')
    (he : ∀ t, (side c' t).events = (side c t).events) : Keeps build w (putConn w b c') b c :=
  ⟨T.put hh hs hk he, ⟨rfl, rfl, rfl⟩, c', held_put hh hs, hk, hs⟩

/-- `pool_fds_set_events` succeeds and keeps the table in order. -/
theorem set_events_keeps (T : Tabled build w) (hh : Held w b c) (hr : Remask c c' s) :
    ∃ w', poolFdsSetEvents build (putConn w b c') (ptr b s) = some w' ∧ Keeps build w w' b c := by
  have hset : ∃ w', poolFdsSetEvents build (putConn w b c') (ptr b s) = some w' ∧ Tabled build w' ∧
      Masked w w' := by
    cases build with
    | epoll => exact set_events_epoll T hh hr
    | poll => exact set_events_poll T hh hr
  obtain ⟨w', h, T', hm⟩ := hset
  exact ⟨w', h, T', hm, c', held_of_bare (set_events_bare h) (held_put hh hr.socks), hr.kinds, hr.socks⟩

/-- The mask of one end is changed. -/
theorem remask (hk : Kinds c) (s : Side) (ev : BitVec 32) :
    Remask c (setSide c s { side c s with events := ev }) s := by
  refine ⟨fun t => ?_, ?_, by rw [side_set_other]⟩
  · cases s <;> cases t <;> rfl
  · cases s <;> exact hk

/-- The common end of `pool_send_data` succeeds. -/
theorem send_done_keeps (T : Tabled build w) (hh : Held w b c) (hk : Kinds c) (s : Side)
    (ev : BitVec 32) :
    ∃ w', poolSendDone build w (ptr b s) ev = some w' ∧ Keeps build w w' b c := by
  let w0 : World := { w with stats := { w.stats with nSend := w.stats.nSend + 1 } }
  have k0 : Keeps build w w0 b c := (Keeps.refl T hh hk).frame rfl rfl rfl rfl rfl
  have hh0 : Held w0 b c := ⟨hh.block, hh.route⟩
  have hdone : poolSendDone build w (ptr b s) ev = (w0.deref (ptr b s)).bind fun d =>
      if ev ≠ d.events then poolFdsSetEvents build (w0.store (ptr b s) { d with events := ev }) (ptr b s)
      else some w0 := rfl
  rw [hdone, deref_ptr hh0.block, Option.bind_some, store_ptr hh0.block]
  split
  · obtain ⟨w', h, k⟩ := set_events_keeps k0.tabled hh0 (remask hk s ev)
    exact ⟨w', h, k.tabled, k0.masked.trans k.masked, k.held⟩
  · exact ⟨w0, rfl, k0⟩

theorem send_resume_keeps (T : Tabled build w) (hh : Held w b c) (hk : Kinds c) (s : Side)
    (resume : Bool) :
    ∃ w', poolSendResume build w (ptr b s) (resumePtr b s resume) = some w' ∧
      Keeps build w w' b c := by
  cases resume with
  | false => exact ⟨w, rfl, .refl T hh hk⟩
  | true =>
    simp only [resumePtr, ↓reduceIte, poolSendResume, deref_ptr hh.block, Option.bind_eq_bind,
      Option.bind_some, store_ptr hh.block]
    split
    · exact set_events_keeps T hh (remask hk s.other _)
    · exact ⟨w, rfl, .refl T hh hk⟩

theorem read_done_keeps (T : Tabled build w) (hh : Held w b c) (hk : Kinds c) (s : Side) (n : Nat) :
    ∃ w', poolReadDone build w (ptr b s) n = some w' ∧ Keeps build w w' b c := by
  have hset : ∃ w1, (if (side c s).total = poolBufSize then
      (w.routeMap (side c s).sock).bind fun src => (w.deref src).bind fun e =>
        poolFdsSetEvents build (w.store src { e with events := e.events &&& ~~~poolFdRead }) src
    else some w) = some w1 ∧ Keeps build w w1 b c := by
    split
    · simp only [hh.route s, Option.bind_some, deref_ptr hh.block, store_ptr hh.block]
      exact set_events_keeps T hh (remask hk s.other _)
    · exact ⟨w, rfl, .refl T hh hk⟩
  obtain ⟨w1, h1, k1⟩ := hset
  unfold poolReadDone
  simp only [deref_ptr hh.block, Option.bind_eq_bind, Option.bind_some]
  rw [h1]
  exact ⟨_, rfl, k1.frame rfl rfl rfl rfl rfl⟩

end masks

section handlers

/-- The connection in the block `b` was taken out of the pool's tables, after some
masks were changed. -/
structure Cleared (build : Build) (cnf : Cnf) (w w' : World) (b : Nat) (c : Conn) : Prop where
  tabled : Tabled build w'
  steps : ∃ w1 c1 s notify w2, Keeps build w w1 b c ∧ Held w1 b c1 ∧
    poolRemoveConn build cnf w1 (side c1 s).sock notify = some w2 ∧ Masked w2 w'

theorem Cleared.frame (h : Cleared build cnf w w1 b c) (hh : w2.heap = w1.heap)
    (hr : w2.routeMap = w1.routeMap) (hc : w2.ctlRecv = w1.ctlRecv) (hf : w2.fdset = w1.fdset)
    (hn : w2.nConns = w1.nConns) : Cleared build cnf w w2 b c := by
  obtain ⟨w3, c3, s, notify, w4, k, hh3, hr3, hm⟩ := h.steps
  exact ⟨h.tabled.frame hh hr hc hf, w3, c3, s, notify, w4, k, hh3, hr3,
    hm.trans ⟨by unfold marks; rw [hf], by rw [hf], hn⟩⟩

/-- `pool_remove_conn` on either descriptor of a connection succeeds. -/
theorem remove_cleared (cnf : Cnf) (k : Keeps build w w1 b c) (hh : Held w1 b c1) (s : Side)
    (notify : Bool) :
    ∃ w2, poolRemoveConn build cnf w1 (side c1 s).sock notify = some w2 ∧
      Cleared build cnf w w2 b c := by
  obtain ⟨w2, h2, T2, _⟩ := remove_tabled cnf k.tabled hh s notify
  exact ⟨w2, h2, T2, w1, c1, s, notify, w2, k, hh, h2, .refl w2⟩

theorem Keeps.cleared (k : Keeps build w w1 b c)
    (h : ∀ c1, Held w1 b c1 → Kinds c1 → (∀ t, (side c1 t).sock = (side c t).sock) →
      Cleared build cnf w1 w2 b c1) : Cleared build cnf w w2 b c := by
  obtain ⟨c1, hh, hk, hs⟩ := k.held
  obtain ⟨T2, w3, c3, s, notify, w4, k3, hrest⟩ := h c1 hh hk hs
  obtain ⟨c4, hh4, hk4, hs4⟩ := k3.held
  exact ⟨T2, w3, c3, s, notify, w4, ⟨k3.tabled, k.masked.trans k3.masked, c4, hh4, hk4,
    fun t => (hs4 t).trans (hs t)⟩, hrest⟩

/-- `pool_send_data` as one expression over the worlds it goes through. -/
theorem send_data_eq (build : Build) (cnf : Cnf) (hb : w.heap b = some c) (s : Side)
    (src : Option EndPtr) (out : SendOut) :
    ∃ stats : Stats, poolSendData build cnf w (ptr b s) src out =
      let n := sendLen (side c s) out
      let w0 := logs w [sendEv b c s out]
      if 0 < n then
        (poolSendResume build (World.store { w0 with stats := stats } (ptr b s) (drained (side c s) n))
          (ptr b s) src).bind fun w2 =>
            (poolSendDone build w2 (ptr b s) ((side c s).advance n).events).bind fun w3 =>
              some (w3, (n : Int))
      else if sendRetries out.errno then
        (poolSendDone build w0 (ptr b s) ((side c s).events ||| poolFdWrite)).bind fun w1 => some (w1, 0)
      else if out.errno = EPIPE then
        if (side c s).kind ≠ .incomplete then
          (poolRemoveConn build cnf w0 (side c s).sock true).bind fun w1 => some (w1, -EPIPE)
        else some (w0, 0)
      else (poolSendDone build w0 (ptr b s) (side c s).events).bind fun w1 => some (w1, -out.errno) := by
  unfold poolSendData
  rw [deref_ptr hb s]
  exact ⟨_, rfl⟩

/-- `pool_send_data` succeeds. It keeps the connection unless it returns `-EPIPE`. -/
theorem send_data_slots (cnf : Cnf) (T : Tabled build w) (hh : Held w b c) (hk : Kinds c) (s : Side)
    (resume : Bool) (out : SendOut) :
    ∃ w' ret, poolSendData build cnf w (ptr b s) (resumePtr b s resume) out = some (w', ret) ∧
      ((ret ≠ -EPIPE ∧ Keeps build w w' b c) ∨ (ret = -EPIPE ∧ Cleared build cnf w w' b c)) := by
  obtain ⟨stats, hsend⟩ := send_data_eq build cnf hh.block s (resumePtr b s resume) out
  rw [hsend]
  have k0 : Keeps build w (logs w [sendEv b c s out]) b c :=
    (Keeps.refl T hh hk).frame rfl rfl rfl rfl rfl
  have hh0 : Held (logs w [sendEv b c s out]) b c := held_logs hh _
  have hdone : ∀ ev, ∃ w', poolSendDone build (logs w [sendEv b c s out]) (ptr b s) ev = some w' ∧
      Keeps build w w' b c := by
    intro ev
    exact k0.trans fun c1 h1 hk1 => send_done_keeps k0.tabled h1 hk1 s ev
  simp only
  split
  · rw [store_ptr (by exact hh.block)]
    have k1 : Keeps build w { logs w [sendEv b c s out] with stats := stats } b c :=
      k0.frame rfl rfl rfl rfl rfl
    have hs : ∀ t, (side (setSide c s (drained (side c s) (sendLen (side c s) out))) t).sock =
        (side c t).sock := by
      intro t
      cases s <;> cases t <;> rfl
    have k2 := Keeps.put (setSide c s (drained (side c s) (sendLen (side c s) out))) k1.tabled
      ⟨hh0.block, hh0.route⟩ hs (by cases s <;> exact hk)
      (by intro t; cases s <;> cases t <;> rfl)
    have k2' : Keeps build w _ b c := ⟨k2.tabled, k1.masked.trans k2.masked, k2.held⟩
    obtain ⟨w3, h3, k3⟩ := k2'.trans fun c1 h1 hk1 => send_resume_keeps k2.tabled h1 hk1 s resume
    obtain ⟨w4, h4, k4⟩ := k3.trans fun c1 h1 hk1 => send_done_keeps k3.tabled h1 hk1 s
      ((side c s).advance (sendLen (side c s) out)).events
    rw [h3, Option.bind_some, h4]
    exact ⟨w4, _, rfl, Or.inl ⟨by simp only [EPIPE]; omega, k4⟩⟩
  · split
    · obtain ⟨w1, h1, k1⟩ := hdone ((side c s).events ||| poolFdWrite)
      rw [h1]
      exact ⟨w1, 0, rfl, Or.inl ⟨by decide, k1⟩⟩
    · split
      · split
        · obtain ⟨w1, h1, hc⟩ := remove_cleared cnf k0 hh0 s true
          rw [h1]
          exact ⟨w1, _, rfl, Or.inr ⟨rfl, hc⟩⟩
        · exact ⟨_, 0, rfl, Or.inl ⟨by decide, k0⟩⟩
      · rename_i hp
        obtain ⟨w1, h1, k1⟩ := hdone (side c s).events
        rw [h1]
        exact ⟨w1, _, rfl, Or.inl ⟨by intro he; exact hp (by omega), k1⟩⟩

/-- `pool_handle_read` succeeds. It keeps the connection unless it returns a
negative number. -/
theorem read_slots (cnf : Cnf) (T : Tabled build w) (hh : Held w b c) (hk : Kinds c) (s : Side)
    (recv : RecvOut) (send : SendOut) :
    ∃ w' ret, poolHandleRead build cnf w (side c s.other).sock recv send = some (w', ret) ∧
      (Keeps build w w' b c ∨ (ret < 0 ∧ Cleared build cnf w w' b c)) := by
  unfold poolHandleRead
  rw [hh.route s.other, other_other]
  simp only [Option.bind_eq_bind, Option.bind_some, deref_ptr hh.block]
  have hlog : ∀ bytes, Keeps build w (logs w [recvEv b c s bytes]) b c := fun bytes =>
    (Keeps.refl T hh hk).frame rfl rfl rfl rfl rfl
  split
  · cases recv with
    | error errno => exact ⟨_, _, rfl, Or.inl ((hlog []).frame rfl rfl rfl rfl rfl)⟩
    | data avail =>
      simp only
      generalize avail.take (poolBufSize - (side c s).total) = bytes
      split
      · obtain ⟨w1, h1, hc⟩ := remove_cleared cnf (hlog bytes) (held_logs hh _) s.other true
        have h1' : poolRemoveConn build cnf (logs w [recvEv b c s bytes]) (side c s.other).sock true =
          some w1 := h1
        refine ⟨poolCountRecv w1, -EPIPE, ?_, Or.inr ⟨by decide, hc.frame rfl rfl rfl rfl rfl⟩⟩
        exact congrArg (fun x => x.bind fun w => some (poolCountRecv w, -EPIPE)) h1'
      · have hfill : World.store (logs w [recvEv b c s bytes]) (ptr b s) (fill (side c s) bytes) =
            putConn (logs w [recvEv b c s bytes]) b (filled c s bytes) :=
          store_ptr (held_logs hh _).block s _
        have k1 : Keeps build w (putConn (logs w [recvEv b c s bytes]) b (filled c s bytes)) b c := by
          have k := Keeps.put (filled c s bytes) (hlog bytes).tabled (held_logs hh _) (filled_socks c s bytes)
            (filled_kinds hk s bytes) (by intro t; cases s <;> cases t <;> rfl)
          exact ⟨k.tabled, (hlog bytes).masked.trans k.masked, k.held⟩
        have hh1 : Held (putConn (logs w [recvEv b c s bytes]) b (filled c s bytes)) b
            (filled c s bytes) := held_put (held_logs hh _) (filled_socks c s bytes)
        obtain ⟨w2, err, h2, hcase⟩ :=
          send_data_slots cnf k1.tabled hh1 (filled_kinds hk s bytes) s false send
        rw [← hfill] at h2
        have h2' := congrArg (fun x => x.bind fun sent =>
          if sent.2 = -EPIPE then some sent
          else (poolReadDone build sent.1 (ptr b s) bytes.length).bind fun w =>
            some (poolCountRecv w, (bytes.length : Int))) h2
        rcases hcase with ⟨hne, k2⟩ | ⟨rfl, hc⟩
        · have k2' : Keeps build w w2 b c := by
            obtain ⟨c2, hh2, hk2, hs2⟩ := k2.held
            exact ⟨k2.tabled, k1.masked.trans k2.masked, c2, hh2, hk2,
              fun t => (hs2 t).trans (filled_socks c s bytes t)⟩
          obtain ⟨w3, h3, k3⟩ := k2'.trans fun c2 hh2 hk2 =>
            read_done_keeps k2.tabled hh2 hk2 s bytes.length
          refine ⟨poolCountRecv w3, bytes.length, ?_, Or.inl (k3.frame rfl rfl rfl rfl rfl)⟩
          refine h2'.trans ?_
          simp only [Option.bind_some, hne, ↓reduceIte, h3]
        · refine ⟨w2, -EPIPE, h2', Or.inr ⟨by decide, k1.cleared fun c1 hc1 _ _ => ?_⟩⟩
          exact Option.some.inj (hh1.block.symm.trans hc1.block) ▸ hc
  · exact ⟨w, 0, rfl, Or.inl (.refl T hh hk)⟩

end handlers

section attach

/-- One slot was appended. -/
structure Joined (w w' : World) (fd : Fd) : Prop where
  marks : marks w' = marks w ++ [(fd, 0)]
  conns : w'.nConns = w.nConns
  room : w.fdset.fdMax ≤ w.fdset.pollfdsLen → w'.fdset.fdMax ≤ w'.fdset.pollfdsLen

theorem Joined.conn_fds (h : Joined w w' fd) (T : Tabled build w) : connFds w' = connFds w ++ [fd] := by
  unfold connFds
  rw [← marks_fds, h.marks, List.map_append, marks_fds, T.slots]
  rfl

/-- The world of an end that was registered. -/
def joined (w : World) (b : Nat) (c : Conn) (s : Side) : World :=
  { route (putConn w b (setSide c s (registered (side c s)))) (side c s).sock (ptr b s.other) with
    fdset := {
      pollfds := w.fdset.pollfds ++ [⟨(side c s).sock, regEvents (side c s), 0⟩]
      pollfdsLen := if w.fdset.fdMax = w.fdset.pollfdsLen then w.fdset.pollfdsLen + fdSetsize
        else w.fdset.pollfdsLen
      fdsIdx := update w.fdset.fdsIdx (ptr b s) w.fdset.fdMax } }

theorem joined_joins (w : World) (b : Nat) (c : Conn) (s : Side) :
    Joined w (joined w b c s) (side c s).sock := by
  refine ⟨by simp [marks, joined], rfl, ?_⟩
  intro hle
  have hmax : (joined w b c s).fdset.fdMax = w.fdset.fdMax + 1 := by simp [joined, FdSet.fdMax]
  have hlen : (joined w b c s).fdset.pollfdsLen = if w.fdset.fdMax = w.fdset.pollfdsLen then
    w.fdset.pollfdsLen + fdSetsize else w.fdset.pollfdsLen := rfl
  rw [hmax, hlen]
  split
  · rw [fdSetsize]
    omega
  · omega

theorem set_conn_end_joined (T : Tabled build w) (hb : w.heap b = some c) (s : Side)
    (hfree : w.routeMap (side c s).sock = none) (hctl : (side c s).sock ≠ w.ctlRecv) :
    poolSetConnEnd build w (ptr b s) (ptr b s.other) = some (joined w b c s) := by
  have hnot : ¬ (build = .epoll ∧
      w.fdset.pollfds.any (fun x => x.fd = (side c s).sock) = true) := by
    rintro ⟨_, hany⟩
    obtain ⟨x, hx, hfd⟩ := List.any_eq_true.mp hany
    have hm : (side c s).sock ∈ w.fdset.pollfds.map PollFd.fd :=
      List.mem_map.mpr ⟨x, hx, by simpa using hfd⟩
    rw [T.slots] at hm
    rcases List.mem_cons.mp hm with he | hm
    · exact hctl he
    · exact T.mem.mp hm hfree
  unfold poolSetConnEnd poolFdsAdd
  simp only [deref_ptr hb, Option.bind_eq_bind, Option.bind_some]
  rw [if_neg hnot, Option.bind_some, store_ptr (by exact hb)]
  rfl

/-- The ends that are registered behind a new one. -/
theorem routed_joined (hb : w.heap b = some c) (h : Routed (joined w b c s) b1 c1 s1) :
    (b1 = b ∧ s1 = s ∧ c1 = setSide c s (registered (side c s))) ∨
      (∃ c0, Routed w b1 c0 s1 ∧ side c1 s1 = side c0 s1 ∧ ptr b1 s1 ≠ ptr b s) := by
  obtain ⟨hheap, hroute⟩ := h
  have hheap' : update w.heap b (some (setSide c s (registered (side c s)))) b1 = some c1 := hheap
  have hroute' : update w.routeMap (side c s).sock (some (ptr b s.other)) (side c1 s1).sock =
      some (ptr b1 s1.other) := hroute
  rcases update_eq_some hroute' with ⟨_, hx⟩ | ⟨hne, hr⟩
  · obtain ⟨hbb, hss⟩ := ptr_inj (Option.some.inj hx)
    subst hbb
    rw [update_self, Option.some.injEq] at hheap'
    exact Or.inl ⟨rfl, (other_inj hss).symm, hheap'.symm⟩
  · refine Or.inr ?_
    rcases update_eq_some hheap' with ⟨rfl, hx⟩ | ⟨hnb, hx⟩
    · simp only [Option.some.injEq] at hx
      have hs1 : s1 ≠ s := by
        rintro rfl
        rw [← hx, side_set] at hne
        exact hne rfl
      have hside : side c1 s1 = side c s1 := by
        rw [← hx]
        rcases side_cases s s1 with rfl | rfl
        · exact absurd rfl hs1
        · exact side_set_other _ _ _
      exact ⟨c, ⟨hb, hside ▸ hr⟩, hside, fun he => hs1 (ptr_inj he).2⟩
    · exact ⟨c1, ⟨hx, hr⟩, rfl, fun he => hnb (ptr_inj he).1⟩

theorem joined_tabled (T : Tabled build w) (hb : w.heap b = some c) (hk : Kinds c) (s : Side)
    (hfree : w.routeMap (side c s).sock = none) (hctl : (side c s).sock ≠ w.ctlRecv) :
    Tabled build (joined w b c s) := by
  have hconn := (joined_joins w b c s).conn_fds T
  have hnew : (side c s).sock ∉ connFds w := fun hm => T.mem.mp hm hfree
  have hk' : Kinds (setSide c s (registered (side c s))) := by cases s <;> exact hk
  have hsocks : ∀ t, (side (setSide c s (registered (side c s))) t).sock = (side c t).sock := by
    intro t
    cases s <;> cases t <;> rfl
  refine ⟨?_, ?_, ?_, ?_, ?_⟩
  · intro fd q hq
    have hq' : update w.routeMap (side c s).sock (some (ptr b s.other)) fd = some q := hq
    rcases update_eq_some hq' with ⟨rfl, hx⟩ | ⟨hne, hq0⟩
    · refine ⟨b, _, s, ⟨update_self _ _ _, ?_⟩, hk', (Option.some.inj hx).symm, (hsocks s).symm⟩
      rw [hsocks]
      exact update_self _ _ _
    · obtain ⟨b1, c1, s1, h1, hk1, hqe, hfd⟩ := T.entry hq0
      by_cases hbb : b1 = b
      · subst hbb
        have hc : c1 = c := Option.some.inj (h1.1.symm.trans hb)
        subst hc
        refine ⟨b1, _, s1, ⟨update_self _ _ _, ?_⟩, hk', hqe, hfd.trans (hsocks s1).symm⟩
        rw [hsocks, ← hfd, ← hqe]
        exact hq
      · refine ⟨b1, c1, s1, ⟨(update_of_ne hbb _ w.heap).trans h1.1, ?_⟩, hk1, hqe, hfd⟩
        rw [← hfd, ← hqe]
        exact hq
  · rw [hconn, ← List.cons_append]
    simp only [joined, List.map_append, T.slots]
    rfl
  · rw [hconn, ← List.cons_append]
    refine List.nodup_append.mpr ⟨T.nodup, by simp, ?_⟩
    intro x hx y hy hxy
    rw [List.mem_singleton.mp hy] at hxy
    subst hxy
    rcases List.mem_cons.mp hx with he | hm
    · exact hctl he
    · exact hnew hm
  · intro fd
    rw [hconn]
    have hr : (joined w b c s).routeMap fd =
        update w.routeMap (side c s).sock (some (ptr b s.other)) fd := rfl
    rw [hr, List.mem_append, List.mem_singleton, T.mem]
    by_cases hfd : fd = (side c s).sock
    · simp [hfd]
    · simp [hfd]
  · intro hp b1 c1 s1 h
    have hget : (joined w b c s).fdset.pollfds =
        w.fdset.pollfds ++ [⟨(side c s).sock, regEvents (side c s), 0⟩] := rfl
    have hidx : (joined w b c s).fdset.fdsIdx =
        update w.fdset.fdsIdx (ptr b s) w.fdset.pollfds.length := rfl
    rw [hget, hidx]
    rcases routed_joined hb h with ⟨rfl, rfl, rfl⟩ | ⟨c0, h0, hside, hne⟩
    · refine ⟨⟨(side c s1).sock, regEvents (side c s1), 0⟩, ?_, (hsocks s1).symm, by rw [side_set]; rfl⟩
      rw [update_self, List.getElem?_concat_length]
    · obtain ⟨x, hx, hfd, hev⟩ := T.idx hp h0
      refine ⟨x, ?_, hside ▸ hfd, hside ▸ hev⟩
      rw [update_of_ne hne, List.getElem?_append_left (List.getElem?_eq_some_iff.mp hx).1]
      exact hx

/-- The two slots of a connection were appended. -/
structure Grown (w w' : World) (fd fd' : Fd) : Prop where
  marks : marks w' = marks w ++ [(fd, 0), (fd', 0)]
  conns : w'.nConns = w.nConns + 1
  room : w.fdset.fdMax ≤ w.fdset.pollfdsLen → w'.fdset.fdMax ≤ w'.fdset.pollfdsLen

/-- A block in the pool's hands: no descriptor leads to it, and it can be registered
with its own descriptors or with any that is not open. -/
structure Spare (w : World) (b : Nat) (c : Conn) : Prop where
  block : w.heap b = some c
  kinds : Kinds c
  unled : ∀ {fd q}, w.routeMap fd = some q → q.block ≠ b
  inc : w.routeMap c.inc.sock = none ∧ c.inc.sock ≠ w.ctlRecv
  dst : 0 ≤ c.dst.sock → w.routeMap c.dst.sock = none ∧ c.dst.sock ≠ w.ctlRecv ∧
    c.dst.sock ≠ c.inc.sock
  fresh : ∀ {fd}, w.isOpen fd = false → w.routeMap fd = none ∧ fd ≠ w.ctlRecv ∧ fd ≠ c.inc.sock

/-- Both ends of a connection are registered. -/
theorem attach_slots (T : Tabled build w) (hb : w.heap b = some c) (hk : Kinds c)
    (hi : w.routeMap c.inc.sock = none ∧ c.inc.sock ≠ w.ctlRecv)
    (hd : w.routeMap c.dst.sock = none ∧ c.dst.sock ≠ w.ctlRecv ∧ c.dst.sock ≠ c.inc.sock) :
    ∃ w1 w2, poolSetConnEnd build w (incPtr b) (dstPtr b) = some w1 ∧
      poolSetConnEnd build w1 (dstPtr b) (incPtr b) = some w2 ∧ Tabled build w2 ∧
      Grown w { w2 with nConns := w2.nConns + 1 } c.inc.sock c.dst.sock := by
  have h1 : poolSetConnEnd build w (incPtr b) (dstPtr b) = some (joined w b c .inc) :=
    set_conn_end_joined T hb .inc hi.1 hi.2
  have T1 := joined_tabled T hb hk .inc hi.1 hi.2
  have hj1 := joined_joins w b c .inc
  have hb1 : (joined w b c .inc).heap b = some (setSide c .inc (registered c.inc)) :=
    update_self _ _ _
  have hfree : (joined w b c .inc).routeMap c.dst.sock = none :=
    (update_of_ne hd.2.2 _ _).trans hd.1
  have h2 : poolSetConnEnd build (joined w b c .inc) (dstPtr b) (incPtr b) = some _ :=
    set_conn_end_joined T1 hb1 .dst hfree hd.2.1
  have T2 := joined_tabled T1 hb1 (by exact hk) .dst hfree hd.2.1
  have hj2 := joined_joins (joined w b c .inc) b (setSide c .inc (registered c.inc)) .dst
  refine ⟨_, _, h1, h2, T2, ⟨?_, rfl, fun hle => hj2.room (hj1.room hle)⟩⟩
  refine hj2.marks.trans ?_
  rw [hj1.marks, List.append_assoc]
  rfl

/-- `pool_handle_add_conn` keeps the table in order, and appends two slots if it
does not fail. -/
theorem add_conn_slots (T : Tabled build w) (hs : Spare w b c)
    (h : poolHandleAddConn build cnf w b out now = some w') :
    Tabled build w' ∧ (Masked w w' ∨ ∃ fd, Grown w w' c.inc.sock fd) := by
  unfold poolHandleAddConn at h
  rw [show w.deref (dstPtr b) = some c.dst from deref_ptr hs.block .dst] at h
  simp only [Option.bind_eq_bind, Option.bind_some, Option.bind_eq_some_iff, Prod.exists] at h
  obtain ⟨w1, error, hasync, h⟩ := h
  have attach : ∀ {v : World} (c1 : Conn), w1 = v → error = 0 → Tabled build v → v.heap b = some c1 →
      Kinds c1 → (v.routeMap c1.inc.sock = none ∧ c1.inc.sock ≠ v.ctlRecv) →
      (v.routeMap c1.dst.sock = none ∧ c1.dst.sock ≠ v.ctlRecv ∧ c1.dst.sock ≠ c1.inc.sock) →
      Tabled build w' ∧ Grown v w' c1.inc.sock c1.dst.sock := by
    rintro v c1 rfl he Tv hb hk hi hd
    obtain ⟨w2, w3, h2, h3, T3, hg⟩ := attach_slots Tv hb hk hi hd
    simp only [he, ne_eq, not_true_eq_false, ↓reduceIte, h2, Option.bind_some, h3,
      Option.some.injEq] at h
    subst h
    exact ⟨T3.frame rfl rfl rfl rfl, hg.marks, hg.conns, hg.room⟩
  split at hasync
  · rcases async_cases hs.block hasync with ⟨herr, fd, l, _, rfl⟩ | ⟨herr, fd, _, hfree, rfl⟩
    · have hi : (logs (putConn w b (onSock c fd)) l).deref (incPtr b) = some c.inc :=
        deref_ptr (c := onSock c fd) (by simp [PoolFrame.logs, putConn]) .inc
      simp only [herr, ne_eq, not_false_eq_true, ↓reduceIte, hi, Option.bind_some,
        Option.some.injEq] at h
      subst h
      refine ⟨?_, Or.inl ⟨rfl, rfl, rfl⟩⟩
      exact (T.rewrite hs.unled none).frame (by simp [World.free, World.close, putConn,
        PoolFrame.logs]) rfl rfl rfl
    · obtain ⟨hr, hc, hne⟩ := hs.fresh hfree
      obtain ⟨T', hg⟩ := attach (onSock c fd) rfl herr
        ((T.rewrite hs.unled (some (onSock c fd))).frame rfl rfl rfl rfl)
        (put_conn_heap _ _ _) hs.kinds hs.inc ⟨hr, hc, hne⟩
      exact ⟨T', Or.inr ⟨fd, hg.marks, hg.conns, hg.room⟩⟩
  · rename_i hpos
    simp only [Option.some.injEq, Prod.mk.injEq] at hasync
    obtain ⟨rfl, rfl⟩ := hasync
    obtain ⟨T', hg⟩ := attach c rfl rfl T hs.block hs.kinds hs.inc (hs.dst (Int.not_lt.mp hpos))
    exact ⟨T', Or.inr ⟨_, hg⟩⟩

end attach

section write

/-- The pool's pipe and every descriptor in its map are open. -/
structure Live (w : World) : Prop where
  ctl : w.isOpen w.ctlRecv = true
  routed : ∀ {fd}, w.routeMap fd ≠ none → w.isOpen fd = true

/-- What an event on the connection in the block `b` does to the pool's slots. -/
inductive Slots (build : Build) (cnf : Cnf) (w : World) (b : Nat) (c : Conn) (w' : World) : Prop
  | kept (k : Keeps build w w' b c)
  | cleared (h : Cleared build cnf w w' b c)
  | moved {w1 : World} {fd : Fd} (h : Cleared build cnf w w1 b c) (T : Tabled build w')
    (hg : Grown w1 w' c.inc.sock fd)

/-- What is left of a connection between two attempts to connect. -/
theorem removed_spare (T : Tabled build w) (hl : Live w) (hh : Held w b c) (hk : Kinds c)
    (hi : c.dst.kind = .incomplete)
    (h1 : poolRemoveConn build cnf w c.dst.sock false = some w1) :
    w1.heap b = some c ∧ w1.isOpen = update w.isOpen c.dst.sock false ∧
      Spare (putConn w1 b (onSock c (-1))) b (onSock c (-1)) := by
  have hrem := remove_spec hh hk .dst h1
  rw [if_neg (by simp [hi])] at hrem
  have hheap : w1.heap b = some c := (congrArg (fun w => w.heap b) hrem).trans hh.block
  have hmap : w1.routeMap = update (update w.routeMap c.dst.sock none) c.inc.sock none :=
    congrArg (fun w => w.routeMap) hrem
  have hopen : w1.isOpen = update w.isOpen c.dst.sock false := congrArg (fun w => w.isOpen) hrem
  have hctl : w1.ctlRecv = w.ctlRecv := congrArg (fun w => w.ctlRecv) hrem
  have hnone : ∀ s, w1.routeMap (side c s).sock = none := by
    intro s
    rw [hmap]
    exact unrouted_socks w.routeMap c s
  have hmono : ∀ {fd}, w.routeMap fd = none → w1.routeMap fd = none := by
    intro fd hfd
    rw [hmap]
    by_cases h1 : fd = c.inc.sock <;> by_cases h2 : fd = c.dst.sock <;> simp [h1, h2, hfd, update_apply]
  obtain ⟨w2, h2, T2, _⟩ := remove_tabled cnf T hh .dst false
  have hw : w2 = w1 := Option.some.inj (h2.symm.trans h1)
  subst hw
  refine ⟨hheap, hopen, put_conn_heap _ _ _, hk, T2.unrouted hheap hnone, ⟨hnone .inc, ?_⟩, ?_, ?_⟩
  · have hne := T.not_ctl (held_routed hh .inc)
    exact fun he => hne (he.trans hctl)
  · intro h0
    have : (0 : Int) ≤ -1 := h0
    omega
  · intro fd hfd
    have hfd' : update w.isOpen c.dst.sock false fd = false := hopen ▸ hfd
    have hcases : fd = c.dst.sock ∨ w.isOpen fd = false := by
      by_cases he : fd = c.dst.sock
      · exact Or.inl he
      · exact Or.inr (by simpa [he] using hfd')
    rcases hcases with rfl | hclosed
    · have hne := T.not_ctl (held_routed hh .dst)
      exact ⟨hnone .dst, fun he => hne (he.trans hctl), (held_socks hh).symm⟩
    · have hfree : w.routeMap fd = none := by
        by_contra hr
        rw [hl.routed hr] at hclosed
        cases hclosed
      refine ⟨hmono hfree, ?_, ?_⟩
      · intro he
        have hfdc : fd = w.ctlRecv := he.trans hctl
        rw [hfdc, hl.ctl] at hclosed
        cases hclosed
      · rintro rfl
        have hr : w.routeMap c.inc.sock = some (dstPtr b) := hh.route .inc
        rw [show (onSock c (-1)).inc.sock = c.inc.sock from rfl, hr] at hfree
        cases hfree

/-- A failed asynchronous connect takes the connection out of the tables. With
another destination it is then added again. -/
theorem conn_failed_removed (cnf : Cnf) (T : Tabled build w) (hl : Live w) (hh : Held w b c)
    (hk : Kinds c) (hi : c.dst.kind = .incomplete) (he : env.soError ≠ 0) :
    ∃ w1, Cleared build cnf w w1 b c ∧
      (poolHandleConnComplete build cnf w (dstPtr b) env = some (w1, env.soError) ∨
      ∃ addr, (again cnf w c env).2 = some addr ∧ w1.isOpen = update w.isOpen c.dst.sock false ∧
        Spare (putConn w1 b (onSock (retarget c addr) (-1))) b (onSock (retarget c addr) (-1)) ∧
        poolHandleConnComplete build cnf w (dstPtr b) env =
          (poolHandleAddConn build cnf (putConn w1 b (onSock (retarget c addr) (-1))) b env.async
            env.addNow).bind fun w2 => some (w2, env.soError)) := by
  rw [conn_failed_eq build cnf hh.block he]
  have k0 : Keeps build w (rerouted cnf w c env) b c := (Keeps.refl T hh hk).frame rfl rfl rfl rfl rfl
  have hput : ∀ c1, (∀ t, (side c1 t).sock = (side c t).sock) → Kinds c1 →
      (∀ t, (side c1 t).events = (side c t).events) →
      Keeps build w (putConn (rerouted cnf w c env) b c1) b c := by
    intro c1 hs hk1 hev
    have k := Keeps.put c1 k0.tabled ⟨hh.block, hh.route⟩ hs hk1 hev
    exact ⟨k.tabled, k0.masked.trans k.masked, k.held⟩
  cases (again cnf w c env).2 with
  | none =>
    have k1 := hput (released c) (by intro t; cases t <;> rfl) ⟨hk.1, by simp [released]⟩
      (by intro t; cases t <;> rfl)
    have hh1 : Held (putConn (rerouted cnf w c env) b (released c)) b (released c) :=
      held_put (by exact ⟨hh.block, hh.route⟩) (by intro t; cases t <;> rfl)
    obtain ⟨w1, h1, hc⟩ := remove_cleared cnf k1 hh1 .dst false
    have h1' : poolRemoveConn build cnf (putConn (rerouted cnf w c env) b (released c)) c.dst.sock
      false = some w1 := h1
    exact ⟨w1, hc, Or.inl (by simp only [h1', Option.bind_some])⟩
  | some addr =>
    have hs : ∀ t, (side (retarget c addr) t).sock = (side c t).sock := by intro t; cases t <;> rfl
    have k1 := hput (retarget c addr) hs hk (by intro t; cases t <;> rfl)
    have hh1 : Held (putConn (rerouted cnf w c env) b (retarget c addr)) b (retarget c addr) :=
      held_put (by exact ⟨hh.block, hh.route⟩) hs
    obtain ⟨w1, h1, hc⟩ := remove_cleared cnf k1 hh1 .dst false
    have h1' : poolRemoveConn build cnf (putConn (rerouted cnf w c env) b (retarget c addr)) c.dst.sock
      false = some w1 := h1
    obtain ⟨hheap, hopen, hspare⟩ := removed_spare k1.tabled ⟨hl.ctl, hl.routed⟩ hh1 hk hi h1
    refine ⟨w1, hc, Or.inr ⟨addr, rfl, hopen, hspare, ?_⟩⟩
    simp only [h1', Option.bind_some, show w1.deref (dstPtr b) = some (retarget c addr).dst from
      deref_ptr hheap .dst]
    rw [show w1.store (dstPtr b) _ = putConn w1 b (onSock (retarget c addr) (-1)) from
      store_ptr hheap .dst _]

/-- What is out of the tables stays out when its server end loses its descriptor. -/
theorem Cleared.masked (h : Cleared build cnf w w1 b c) (T : Tabled build w2) (hm : Masked w1 w2) :
    Cleared build cnf w w2 b c := by
  obtain ⟨w3, c3, s, notify, w4, k, hh3, hr3, hm3⟩ := h.steps
  exact ⟨T, w3, c3, s, notify, w4, k, hh3, hr3, hm3.trans hm⟩

theorem conn_failed_slots (T : Tabled build w) (hl : Live w) (hh : Held w b c) (hk : Kinds c)
    (hi : c.dst.kind = .incomplete) (he : env.soError ≠ 0)
    (h : poolHandleConnComplete build cnf w (dstPtr b) env = some (w', ret)) :
    ret = env.soError ∧ Slots build cnf w b c w' := by
  obtain ⟨w1, hc, heq | ⟨addr, _, _, hspare, heq⟩⟩ := conn_failed_removed cnf T hl hh hk hi he
  · rw [heq, Option.some.injEq, Prod.mk.injEq] at h
    obtain ⟨rfl, rfl⟩ := h
    exact ⟨rfl, .cleared hc⟩
  · rw [heq] at h
    simp only [Option.bind_eq_some_iff, Option.some.injEq, Prod.mk.injEq] at h
    obtain ⟨w2, h2, rfl, rfl⟩ := h
    have T1 : Tabled build (putConn w1 b (onSock (retarget c addr) (-1))) :=
      hc.tabled.rewrite hspare.unled _
    obtain ⟨T2, hm | ⟨fd, hg⟩⟩ := add_conn_slots T1 hspare h2
    · exact ⟨rfl, .cleared (hc.masked T2 ⟨hm.marks, hm.len, hm.conns⟩)⟩
    · exact ⟨rfl, .moved hc T2 ⟨hg.marks, hg.conns, hg.room⟩⟩

/-- Without a socket for another attempt the connection is not added again. -/
theorem conn_failed_cleared (cnf : Cnf) (T : Tabled build w) (hl : Live w) (hh : Held w b c)
    (hk : Kinds c) (hi : c.dst.kind = .incomplete) (he : env.soError ≠ 0)
    (ha : env.async = .noSocket 1) :
    ∃ w', poolHandleConnComplete build cnf w (dstPtr b) env = some (w', env.soError) ∧
      Cleared build cnf w w' b c := by
  obtain ⟨w1, hc, heq | ⟨addr, _, _, hspare, heq⟩⟩ := conn_failed_removed cnf T hl hh hk hi he
  · exact ⟨w1, heq, hc⟩
  · let w0 := putConn w1 b (onSock (retarget c addr) (-1))
    have hheap : w0.heap b = some (onSock (retarget c addr) (-1)) := hspare.block
    have T0 : Tabled build w0 := hc.tabled.rewrite hspare.unled _
    have hadd : ∃ w3, poolHandleAddConn build cnf w0 b env.async env.addNow = some w3 ∧
        w3.fdset = w1.fdset ∧ w3.nConns = w1.nConns := by
      unfold poolHandleAddConn poolHandleAsyncConn
      rw [show w0.deref (dstPtr b) = some (onSock (retarget c addr) (-1)).dst from deref_ptr hheap .dst,
        ha]
      have hstore : ∀ e, w0.store (dstPtr b) e = putConn w0 b (setSide (onSock (retarget c addr) (-1)) .dst e) :=
        fun e => store_ptr hheap .dst e
      simp only [Option.bind_eq_bind, Option.bind_some, hstore, onSock, show (-1 : Int) < 0 by decide,
        ↓reduceIte, AsyncOut.ok, show (0 : Int) < 1 by decide, decide_true, Bool.not_true,
        Bool.false_eq_true, show (1 : Int) ≠ 0 by decide, ne_eq, not_false_eq_true]
      rw [show ∀ v : World, v.heap b = some _ → v.deref (incPtr b) = _ from fun v hv => deref_ptr hv .inc]
      · exact ⟨_, rfl, rfl, rfl⟩
      · exact put_conn_heap _ _ _
    obtain ⟨w3, h3, hf, hn⟩ := hadd
    obtain ⟨T3, _⟩ := add_conn_slots T0 hspare h3
    refine ⟨w3, by rw [heq, h3]; rfl, hc.masked T3 ⟨?_, by rw [hf], hn⟩⟩
    unfold marks
    rw [hf]

/-- `pool_handle_write` behind the completion of a connect. -/
def writeRest (build : Build) (cnf : Cnf) (b : Nat) (s : Side) (send : SendOut) (w : World) :
    Option World :=
  (w.deref (ptr b s)).bind fun d =>
    if d.total ≠ 0 then
      (poolSendData build cnf w (ptr b s) (some (ptr b s.other)) send).bind fun x => some x.1
    else some w

theorem write_eq (build : Build) (cnf : Cnf) (hh : Held w b c) (s : Side) (env : CompleteEnv)
    (send : SendOut) :
    poolHandleWrite build cnf w (side c s).sock env send =
      (if (side c s).kind = .incomplete then poolHandleConnComplete build cnf w (ptr b s) env
        else some (w, 0)).bind fun x =>
          if x.2 ≠ 0 then some x.1 else writeRest build cnf b s send x.1 := by
  unfold poolHandleWrite
  simp only [Option.bind_eq_bind, hh.route s, Option.bind_some, deref_ptr hh.block, hh.route s.other,
    other_other]
  rfl

theorem write_rest_slots (cnf : Cnf) (T : Tabled build w) (hh : Held w b c) (hk : Kinds c) (s : Side)
    (send : SendOut) :
    ∃ w', writeRest build cnf b s send w = some w' ∧
      (Keeps build w w' b c ∨ (send.errno = EPIPE ∧ Cleared build cnf w w' b c)) := by
  unfold writeRest
  rw [deref_ptr hh.block, Option.bind_some]
  split
  · obtain ⟨w1, ret, h1, hcase⟩ := send_data_slots cnf T hh hk s true send
    have h1' : poolSendData build cnf w (ptr b s) (some (ptr b s.other)) send = some (w1, ret) := h1
    rw [h1']
    refine ⟨w1, rfl, ?_⟩
    rcases hcase with ⟨_, k⟩ | ⟨hret, hc⟩
    · exact Or.inl k
    · rcases send_data_cases hh hk s true h1 with ⟨hne, _⟩ | ⟨_, _, herr, _⟩
      · exact absurd hret hne
      · exact Or.inr ⟨herr, hc⟩
  · exact ⟨w, rfl, Or.inl (.refl T hh hk)⟩

/-- `pool_handle_conn_complete` succeeds when the connect did. -/
theorem conn_done_keeps (cnf : Cnf) (T : Tabled build w) (hh : Held w b c) (hk : Kinds c)
    (he : env.soError = 0) :
    ∃ w', poolHandleConnComplete build cnf w (dstPtr b) env = some (w', 0) ∧ Keeps build w w' b c := by
  have hmask : Remask c (completed c) .dst :=
    ⟨by intro t; cases t <;> rfl, ⟨hk.1, by simp [completed]⟩, rfl⟩
  obtain ⟨w1, h1, k1⟩ := set_events_keeps T hh hmask
  have h1' : poolFdsSetEvents build (w.store (dstPtr b) { c.dst with
      kind := .complete, events := poolFdRead }) (dstPtr b) = some w1 := by
    rw [show w.store (dstPtr b) _ = putConn w b (completed c) from store_ptr hh.block .dst _]
    exact h1
  refine ⟨w1, ?_, k1⟩
  unfold poolHandleConnComplete
  rw [show w.deref (dstPtr b) = some c.dst from deref_ptr hh.block .dst]
  simp only [Option.bind_eq_bind, Option.bind_some, he, ne_eq, not_true_eq_false, ↓reduceIte, h1']

/-- `pool_handle_write` keeps the table in order. -/
theorem write_slots (T : Tabled build w) (hl : Live w) (hh : Held w b c) (hk : Kinds c) (s : Side)
    (h : poolHandleWrite build cnf w (side c s).sock env send = some w') : Slots build cnf w b c w' := by
  rw [write_eq build cnf hh] at h
  have rest : ∀ {w1}, Keeps build w w1 b c → writeRest build cnf b s send w1 = some w' →
      Slots build cnf w b c w' := by
    intro w1 k1 hrest
    obtain ⟨c1, hh1, hk1, hs1⟩ := k1.held
    obtain ⟨w2, h2, hcase⟩ := write_rest_slots cnf k1.tabled hh1 hk1 s send
    have hw : w2 = w' := Option.some.inj (h2.symm.trans hrest)
    subst hw
    rcases hcase with k2 | ⟨_, hc⟩
    · obtain ⟨c2, hh2, hk2, hs2⟩ := k2.held
      exact .kept ⟨k2.tabled, k1.masked.trans k2.masked, c2, hh2, hk2, fun t => (hs2 t).trans (hs1 t)⟩
    · refine .cleared (k1.cleared fun c2 hh2 _ _ => ?_)
      exact Option.some.inj (hh1.block.symm.trans hh2.block) ▸ hc
  split at h
  · rename_i hi
    obtain ⟨rfl, hid⟩ := kind_incomplete hk hi
    by_cases he : env.soError = 0
    · obtain ⟨w1, h1, k1⟩ := conn_done_keeps cnf T hh hk he
      rw [show poolHandleConnComplete build cnf w (ptr b .dst) env = some (w1, 0) from h1,
        Option.bind_some] at h
      exact rest k1 h
    · obtain ⟨⟨w1, ret⟩, h1, h⟩ := Option.bind_eq_some_iff.mp h
      obtain ⟨rfl, hslots⟩ := conn_failed_slots T hl hh hk hid he h1
      simp only [he, ne_eq, not_false_eq_true, ↓reduceIte, Option.some.injEq] at h
      exact h ▸ hslots
  · rw [Option.bind_some] at h
    exact rest (.refl T hh hk) h

end write

end Glb.Proofs.FdSteps
