import Glb.Proofs.Drop

namespace Glb.Proofs.Release
open Function Lib.Run PoolFrame Ownership FdTable Registry RouterRun Drop

variable {build : Build} {cnf : Cnf} {w w' w1 : World} {b : Nat} {c : Conn} {s : Side} {tag : Nat → Bool}

def closes (w : World) (fd : Fd) : Nat := w.log.count (.close fd)

def frees (w : World) (b : Nat) : Nat := w.log.count (.free b)

/-- Neither descriptor of the connection is in the pool's map any more. -/
def Terminated (w' : World) (c : Conn) : Prop := ∀ s, w'.routeMap (side c s).sock = none

/-- Both sockets were closed once and the block was freed once. -/
structure Released (w w' : World) (b : Nat) (c : Conn) : Prop where
  closed : ∀ s, closes w' (side c s).sock = closes w (side c s).sock + 1 ∧ w'.isOpen (side c s).sock = false
  freed : frees w' b = frees w b + 1 ∧ w'.heap b = none

section scan

theorem removed_log (hh : Held w b c) (hk : Kinds c) (s : Side)
    (h : poolRemoveConn build cnf w (side c s).sock false = some w1) :
    w1.ctlRecv = w.ctlRecv ∧
      w1.log = w.log ++ .close c.dst.sock :: (if fullAt c s then [.close c.inc.sock, .free b] else []) ∧
      w1.heap = if fullAt c s then update w.heap b none else w.heap := by
  have hbare := remove_spec hh hk s h
  by_cases hf : s = .inc ∨ c.dst.kind ≠ .incomplete
  · have hft : fullAt c s = true := by simpa [fullAt] using hf
    rw [if_pos hf] at hbare
    rw [if_pos hft, if_pos hft]
    exact ⟨congrArg (fun w => w.ctlRecv) hbare,
      (congrArg (fun w => w.log) hbare).trans (gone_log cnf w b c false),
      (congrArg (fun w => w.heap) hbare).trans (gone_heap cnf w b c false)⟩
  · have hft : ¬ fullAt c s = true := by simpa [fullAt] using hf
    rw [if_neg hf] at hbare
    rw [if_neg hft, if_neg hft]
    exact ⟨congrArg (fun w => w.ctlRecv) hbare,
      (congrArg (fun w => w.log) hbare).trans (detached_log w c), congrArg (fun w => w.heap) hbare⟩

/-- How often a scan closes and frees. -/
def once (c : Conn) : Nat := if halfClosed c then 0 else 1

/-- What a scan closes and frees: for each tagged connection the server's socket, and
the client's with the block unless the server end is half closed. -/
structure Noted (tag : Nat → Bool) (w w' : World) : Prop where
  ctl : w'.ctlRecv = w.ctlRecv
  idle : ∀ x, w.routeMap x = none → closes w' x = closes w x
  unheld : ∀ b, (∀ c, ¬ Held w b c) → frees w' b = frees w b ∧ w'.heap b = w.heap b
  swept : ∀ {b c}, Held w b c → tag b = true → closes w' c.dst.sock = closes w c.dst.sock + 1 ∧
    closes w' c.inc.sock = closes w c.inc.sock + once c ∧ frees w' b = frees w b + once c ∧
    (w'.heap b = none ↔ halfClosed c = false)

theorem removed_counts (hh : Held w b c) (hk : Kinds c) (hfull : fullAt c s = !halfClosed c)
    (h : poolRemoveConn build cnf w (side c s).sock false = some w1) :
    (∀ x, closes w1 x = closes w x + (if x = c.dst.sock then 1 else 0) + if x = c.inc.sock then once c else 0) ∧
      ∀ b', frees w1 b' = frees w b' + if b' = b then once c else 0 := by
  obtain ⟨_, hlog, _⟩ := removed_log hh hk s h
  rw [hfull] at hlog
  constructor
  · intro x
    unfold closes once
    rw [hlog]
    cases halfClosed c <;> simp [List.count_append, List.count_cons, eq_comm (a := x), Nat.add_assoc, Nat.add_comm]
  · intro b'
    unfold frees once
    rw [hlog]
    cases halfClosed c <;> simp [List.count_append, List.count_cons, eq_comm (a := b')]

theorem Noted.step (hh : Held w b c) (hk : Kinds c) (ht : tag b = true) (hfull : fullAt c s = !halfClosed c)
    (h1 : poolRemoveConn build cnf w (side c s).sock false = some w1) (hn : Noted tag w1 w') :
    Noted tag w w' := by
  obtain ⟨hctl, _, hheap⟩ := removed_log hh hk s h1
  obtain ⟨hcloses, hfrees⟩ := removed_counts hh hk hfull h1
  have hr := removed_spec hh hk s h1
  have hsock := held_socks hh
  have hfree : ∀ {b'}, b' ≠ b → frees w1 b' = frees w b' := fun hb => by rw [hfrees, if_neg hb, Nat.add_zero]
  refine ⟨hn.ctl.trans hctl, ?_, ?_, ?_⟩
  · intro x hx
    have hne : ∀ t, x ≠ (side c t).sock := by
      rintro t rfl
      rw [hh.route t] at hx
      cases hx
    have hd : x ≠ c.dst.sock := hne .dst
    have hi : x ≠ c.inc.sock := hne .inc
    have hx1 : w1.routeMap x = none := by rw [hr.routes, if_neg (by simp [hi, hd]), hx]
    rw [hn.idle x hx1, hcloses, if_neg hd, if_neg hi, Nat.add_zero]
  · intro b' hb'
    have hb : b' ≠ b := by
      rintro rfl
      exact hb' c hh
    obtain ⟨hf, hp⟩ := hn.unheld b' (fun c' hc' => hb' c' ((hr.held_iff hh).mp hc').2)
    exact ⟨hf.trans (hfree hb), hp.trans (hr.others b' hb)⟩
  · intro b' c' hh' ht'
    by_cases hb : b' = b
    · -- its descriptors and its block are out of the rest of the scan
      subst hb
      have hc : c' = c := Option.some.inj (hh'.block.symm.trans hh.block)
      subst hc
      have hd := hn.idle c'.dst.sock (by rw [hr.routes, if_pos (Or.inr rfl)])
      have hi := hn.idle c'.inc.sock (by rw [hr.routes, if_pos (Or.inl rfl)])
      obtain ⟨hf, hp⟩ := hn.unheld b' (fun c1 hc1 => ((hr.held_iff hh).mp hc1).1 rfl)
      refine ⟨?_, ?_, ?_, ?_⟩
      · rw [hd, hcloses, if_pos rfl, if_neg (Ne.symm hsock)]
      · rw [hi, hcloses, if_neg hsock, if_pos rfl, Nat.add_zero]
      · rw [hf, hfrees, if_pos rfl]
      · rw [hp, hheap, hfull]
        cases halfClosed c' <;> simp [hh.block]
    · obtain ⟨hd, hi, hf, hp⟩ := hn.swept ((hr.held_iff hh).mpr ⟨hb, hh'⟩) ht'
      have same : ∀ t, closes w1 (side c' t).sock = closes w (side c' t).sock := by
        intro t
        obtain ⟨hni, hnd⟩ := held_apart hh hh' hb t
        rw [hcloses, if_neg hnd, if_neg hni, Nat.add_zero]
      have hsd : closes w1 c'.dst.sock = closes w c'.dst.sock := same .dst
      have hsi : closes w1 c'.inc.sock = closes w c'.inc.sock := same .inc
      exact ⟨hsd ▸ hd, hsi ▸ hi, hfree hb ▸ hf, hp⟩

theorem scan_noted (cnf : Cnf) (tag : Nat → Bool) (hit : World → EndPtr → Option Bool)
    (hhit : ∀ {w b c s}, Routed w b c s → Kinds c → hit w (ptr b s.other) = some (tag b))
    (I : Intact build w) :
    ∃ w', scanLoop build cnf hit poolMaxFd 0 (w.fdset.fdMax - 1 : Int) w = some w' ∧
      SweptOut tag w w' ∧ Noted tag w w' := by
  have done : ∀ {w fd}, Scanning build tag fd w → remaining fd w = 0 → SweptOut tag w w ∧ Noted tag w w := by
    intro w fd S h0
    refine ⟨S.done h0, rfl, fun _ _ => rfl, fun _ _ => ⟨rfl, rfl⟩, ?_⟩
    intro b c hh ht
    have hnone : (connFds w).countP (fun x => fd ≤ x) = 0 := Int.ofNat.inj h0
    rw [List.countP_eq_zero] at hnone
    exact absurd (by simpa using S.ahead hh ht .inc) (hnone _ (S.routed_mem (held_routed hh .inc)))
  have step : ∀ {w w1 w' b c s}, Held w b c → Kinds c → tag b = true → fullAt c s = !halfClosed c →
      poolRemoveConn build cnf w (side c s).sock false = some w1 → SweptOut tag w1 w' ∧ Noted tag w1 w' →
      SweptOut tag w w' ∧ Noted tag w w' := by
    intro w w1 w' b c s hh hk ht hfull h1 hrest
    exact ⟨hrest.1.step (hfull ▸ removed_spec hh hk s h1) hh ht, hrest.2.step hh hk ht hfull h1⟩
  rw [← I.remaining]
  exact scan_rule (R := fun w w' => SweptOut tag w w' ∧ Noted tag w w') hhit done step poolMaxFd 0 rfl
    (I.scanning tag)

end scan

section handlers

/-- What a scan leaves of a tagged connection is released exactly if it was not half
closed. -/
theorem swept_released_iff (I : Intact build w) (hs : SweptOut tag w w') (hn : Noted tag w w') (hh : Held w b c)
    (ht : tag b = true) : Released w w' b c ↔ halfClosed c = false := by
  obtain ⟨_, hopend, hopeni⟩ := hs.swept hh ht
  obtain ⟨hd, hi, hf, hp⟩ := hn.swept hh ht
  have hlive : w.isOpen c.inc.sock = true := I.held_open hh .inc
  rw [hlive, Bool.and_true] at hopeni
  constructor
  · intro h
    exact hp.mp h.freed.2
  · intro hhalf
    have hone : once c = 1 := by simp [once, hhalf]
    rw [hone] at hi hf
    rw [hhalf] at hopeni
    refine ⟨?_, hf, hp.mpr hhalf⟩
    intro t
    cases t with
    | inc => exact ⟨hi, hopeni⟩
    | dst => exact ⟨hd, hopend⟩

theorem drop_noted (cnf : Cnf) (I : Intact build w) (hdr : Nat → SockAddr) (a : SockAddr) :
    ∃ w', poolHandleDropDst build cnf hdr w a = some w' ∧ SweptOut (fun b => a = hdr b) w w' ∧
      Noted (fun b => a = hdr b) w w' := by
  unfold poolHandleDropDst
  exact scan_noted cnf _ _ (fun hr hk => dropped_hit hdr a hr hk) I

/-- `pool_handle_shutdown` scans for all connections and closes the pipe. -/
theorem shutdown_noted (cnf : Cnf) (I : Intact build w) :
    ∃ v, poolHandleShutdown build cnf w = some { v.close v.ctlRecv with shutdown := true } ∧
      SweptOut (fun _ => true) w v ∧ Noted (fun _ => true) w v := by
  obtain ⟨v, hv, hs, hn⟩ := scan_noted cnf (fun _ => true) (fun _ _ => some true) (fun _ _ => rfl) I
  refine ⟨v, ?_, hs, hn⟩
  simp only [poolHandleShutdown, hv, Option.bind_eq_bind, Option.bind_some]

/-- The pipe is none of the connection's sockets, so closing it changes nothing for
them. -/
theorem close_ctl_released (I : Intact build w) (hn : Noted tag w w') (hh : Held w b c) :
    Released w { w'.close w'.ctlRecv with shutdown := true } b c ↔ Released w w' b c := by
  have hne : ∀ t, (side c t).sock ≠ w'.ctlRecv := by
    intro t he
    have hmem : (side c t).sock ∈ connFds w := I.routed_mem (held_routed hh t)
    rw [he, hn.ctl] at hmem
    exact (List.nodup_cons.mp I.nodup).1 hmem
  have hcloses : ∀ t, closes { w'.close w'.ctlRecv with shutdown := true } (side c t).sock =
      closes w' (side c t).sock := by
    intro t
    simp [closes, World.close, List.count_append, Ne.symm (hne t)]
  have hopen : ∀ t, (w'.close w'.ctlRecv).isOpen (side c t).sock = w'.isOpen (side c t).sock :=
    fun t => update_of_ne (hne t) _ _
  have hfrees : frees { w'.close w'.ctlRecv with shutdown := true } b = frees w' b := by
    simp [frees, World.close, List.count_append]
  constructor
  · intro h
    exact ⟨fun t => ⟨hcloses t ▸ (h.closed t).1, hopen t ▸ (h.closed t).2⟩, hfrees ▸ h.freed.1, h.freed.2⟩
  · intro h
    exact ⟨fun t => ⟨(hcloses t).trans (h.closed t).1, (hopen t).trans (h.closed t).2⟩,
      hfrees.trans h.freed.1, h.freed.2⟩

/-- In every pool that is in order both handlers return, and a connection that they
terminate is released exactly if its server end is not half closed: still connecting,
on a descriptor that the scan meets before the client's. -/
theorem terminated_released_iff (I : Intact build w) (cnf : Cnf) (hdr : Nat → SockAddr) (a : SockAddr) :
    (∃ w', poolHandleDropDst build cnf hdr w a = some w' ∧ ∀ b c, Held w b c →
      (Terminated w' c ↔ hdr b = a) ∧ (Terminated w' c → (Released w w' b c ↔ halfClosed c = false))) ∧
    ∃ w', poolHandleShutdown build cnf w = some w' ∧ ∀ b c, Held w b c →
      Terminated w' c ∧ (Released w w' b c ↔ halfClosed c = false) := by
  constructor
  · obtain ⟨w', hw, hs, hn⟩ := drop_noted cnf I hdr a
    refine ⟨w', hw, ?_⟩
    intro b c hh
    have hiff : Terminated w' c ↔ hdr b = a := by
      constructor
      · intro ht
        by_contra hb
        have hkept := (hs.kept hh (decide_eq_false (Ne.symm hb))).1.route .inc
        rw [ht .inc] at hkept
        cases hkept
      · intro hb
        exact (hs.swept hh (decide_eq_true hb.symm)).1
    exact ⟨hiff, fun ht => swept_released_iff I hs hn hh (decide_eq_true (hiff.mp ht).symm)⟩
  · obtain ⟨v, hv, hs, hn⟩ := shutdown_noted cnf I
    refine ⟨_, hv, ?_⟩
    intro b c hh
    exact ⟨(hs.swept hh rfl).1, (close_ctl_released I hn hh).trans (swept_released_iff I hs hn hh rfl)⟩

theorem terminated_released_iff_serves_a :
    Intact .poll servesBoth ∧ ∃ w', poolHandleShutdown .poll leastConns servesBoth = some w' ∧
      Released servesBoth w' 0 connToA := by
  obtain ⟨_, w', hw, hall⟩ := terminated_released_iff (serves_intact .poll) leastConns (fun _ => serverA) serverA
  exact ⟨serves_intact .poll, w', hw, (hall 0 connToA serves_held_a).2.mpr (by decide)⟩

/-- A second client is accepted on socket 8 while the first is served on 6 and 7. The
first one leaves, and the connect for the second one gets socket 6. -/
def lowerServer : List DaemonOp :=
  connectA ++ [.accept 8 clientAddr (-1) (chooseAt 100), .addConn true true, .read 0 6 (.data []) ⟨0, 0⟩,
    .ctl 0 ⟨.socket 6 EINPROGRESS, 100, fun _ => serverB⟩]

/-- Both handlers close socket 6 and forget the connection. Socket 8 stays open and
block 1 is not freed. -/
theorem lower_server_leaks :
    exec (daemonStep .epoll leastConns noWdog) oneDaemon lowerServer = some (reachedBy leastConns lowerServer) ∧
      ((firstPool (reachedBy leastConns lowerServer)).heap 1).map (fun c => (c.inc.sock, c.dst.sock)) =
        some (8, 6) ∧
      (poolHandleShutdown .epoll leastConns (firstPool (reachedBy leastConns lowerServer))).map
        (fun w => (w.routeMap 8, w.isOpen 6, w.isOpen 8, (w.heap 1).isSome)) = some (none, false, true, true) ∧
      (poolHandleDropDst .epoll leastConns (fun _ => serverA) (firstPool (reachedBy leastConns lowerServer))
        serverA).map (fun w => (w.routeMap 8, w.isOpen 6, w.isOpen 8, (w.heap 1).isSome)) =
          some (none, false, true, true) :=
  ⟨reached_by leastConns lowerServer (by decide +kernel), by decide +kernel, by decide +kernel, by decide +kernel⟩

end handlers

end Glb.Proofs.Release
