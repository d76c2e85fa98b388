import Glb.Proofs.Ownership

namespace Glb.Proofs.DaemonLedger
open Function Lib.Claims PoolFrame PoolEvents Ownership

variable {build : Build} {cnf : Cnf} {ctrl : Ctrl} {d d' : Daemon} {v : View} {w w' : World}
variable {claim : Owner → Option Fd} {home : Nat → Option Home} {i b : Nat} {c c' : Conn}

/-- The blocks that wait in a pipe. -/
def adds (pipe : List PoolCtl) : List Nat :=
  pipe.filterMap fun ctl => match ctl with | .addConn b => some b | _ => none

/-- The pipe of a pool that still reads it. -/
def ctlFd (p : Pool) : Option Fd := if p.shutdown then none else some p.ctlRecv

def view (d : Daemon) : View where
  routes i fd := d.pools[i]?.bind fun p => p.routeMap fd
  queue i := (d.pools[i]?.map fun p => adds p.pipe).getD []
  pipe i := d.pools[i]?.bind ctlFd
  heap := d.heap
  isOpen := d.isOpen
  listener := d.listener
  next := d.nextBlock

/-- What a view becomes when pool `i` is as in `w`. -/
def seen (v : View) (i : Nat) (w : World) : View :=
  { v with
    routes := update v.routes i w.routeMap
    queue := update v.queue i (adds w.pipe)
    pipe := update v.pipe i (ctlFd w.toPool)
    heap := w.heap
    isOpen := w.isOpen }

theorem view_put (hi : i < d.pools.length) : view (d.put i w) = seen (view d) i w := by
  have hget : ∀ j, (d.pools.set i w.toPool)[j]? = if j = i then some w.toPool else d.pools[j]? := by
    intro j
    rw [List.getElem?_set]
    by_cases hj : j = i
    · subst hj
      simp [hi]
    · have hij : i ≠ j := fun h => hj h.symm
      simp [hj, hij]
  have hr : (view (d.put i w)).routes = (seen (view d) i w).routes := by
    funext j
    by_cases hj : j = i <;> simp [view, seen, Daemon.put, hget, hj]
  have hq : (view (d.put i w)).queue = (seen (view d) i w).queue := by
    funext j
    by_cases hj : j = i <;> simp [view, seen, Daemon.put, hget, hj]
  have hp : (view (d.put i w)).pipe = (seen (view d) i w).pipe := by
    funext j
    by_cases hj : j = i <;> simp [view, seen, Daemon.put, hget, hj]
  unfold view seen at *
  simp only [View.mk.injEq]
  exact ⟨hr, hq, hp, rfl, rfl, rfl, rfl⟩

theorem view_world (hp : d.pools[i]? = some p) : seen (view d) i (d.world p) = view d := by
  have hr : p.routeMap = (view d).routes i := by
    funext fd
    simp [view, hp]
  have hq : adds p.pipe = (view d).queue i := by simp [view, hp]
  have hc : ctlFd p = (view d).pipe i := by simp [view, hp]
  simp [seen, Daemon.world, hr, hq, hc, view]

/-- The ledger as one pool sees it. -/
theorem pool_ledger (L : Ledger (view d) claim home) (hp : d.pools[i]? = some p) :
    Ledger (seen (view d) i (d.world p)) claim home :=
  (view_world hp).symm ▸ L

theorem seen_bare (h : bare w' = bare w) : seen v i w' = seen v i w := by
  have hs : seen v i (bare w') = seen v i (bare w) := by rw [h]
  exact hs

/-- A descriptor in the pool's map belongs to a connection the pool holds. -/
theorem served (L : Ledger (seen v i w) claim home) (hr : w.routeMap fd = some p) :
    ∃ b c s, home b = some (.held i) ∧ Held w b c ∧ Kinds c ∧ fd = (side c s).sock := by
  have hr' : (seen v i w).routes i fd = some p := by simpa [seen] using hr
  obtain ⟨b, c, s, hb, hc, hfd⟩ := L.routed hr'
  refine ⟨b, c, s, hb, ⟨hc, fun t => ?_⟩, (L.unique hb hc).1, hfd⟩
  simpa [seen] using (L.held hb hc).2 t

theorem held_home (L : Ledger (seen v i w) claim home) (hh : Held w b c) :
    home b = some (.held i) := by
  have hr : (seen v i w).routes i c.inc.sock = some (dstPtr b) := by
    simp only [seen, update_self]
    exact hh.route .inc
  obtain ⟨b', c', s, hb, hc, hfd⟩ := L.routed hr
  have hr' := (L.held hb hc).2 s
  rw [← hfd, hr, Option.some.injEq] at hr'
  have hbb : b = b' := by
    have := congrArg EndPtr.block hr'
    simpa [dstPtr] using this
  exact hbb ▸ hb

section worlds

theorem ledger_put (c' : Conn) (L : Ledger (seen v i w) claim home) (hc : w.heap b = some c)
    (hs : ∀ s, (side c' s).sock = (side c s).sock) (hk : Kinds c → Kinds c') (l : List Ev) :
    Ledger (seen v i (putConn (logs w l) b c')) claim home :=
  L.keep hc hs hk

/-- The pool takes a connection out of its tables. -/
theorem ledger_unhold (L : Ledger (seen v i w) claim home) (hb : home b = some (.held i))
    (hc : w.heap b = some c) :
    Ledger (seen v i (putConn (detached w c) b (onSock c (-1))))
      (update claim (.conn b .dst) none) (update home b (some .hand)) := by
  have hu := L.unhold hb hc
  have heq : (seen v i w).unhold i b c = seen v i (putConn (detached w c) b (onSock c (-1))) := by
    simp [View.unhold, seen, detached, unroute, forget, putConn, World.close, ctlFd]
  exact heq ▸ hu

theorem ledger_detached (L : Ledger (seen v i w) claim home) (hb : home b = some (.held i))
    (hc : w.heap b = some c) :
    ∃ claim', Ledger (seen v i (detached w c)) claim' (update home b none) := by
  have hf := (ledger_unhold L hb hc).forget (b := b) (by simp) (some c)
  rw [update_idem] at hf
  have heq : { seen v i (putConn (detached w c) b (onSock c (-1))) with
      heap := update (seen v i (putConn (detached w c) b (onSock c (-1)))).heap b (some c) } =
      seen v i (detached w c) := by
    simp [seen, putConn, detached, unroute, forget, World.close, ← hc, ctlFd]
  exact ⟨_, heq ▸ hf⟩

/-- The block in the pool's hands is freed and its client's descriptor closed. -/
theorem ledger_lost (cnf : Cnf) (L : Ledger (seen v i w) claim home) (hb : home b = some .hand)
    (hi : claim (.conn b .inc) = some c.inc.sock) (now : Int) (l : List Ev) :
    ∃ claim', Ledger (seen v i (lost cnf w b c now l)) claim' (update home b none) := by
  have hclosed := (L.forget hb none).close c.inc.sock (by
    intro o ho
    exact drop_unclaimed L.sound hi o (update_some (o := .conn b .dst) ho).2)
  exact ⟨_, hclosed⟩

/-- A connection that the pool holds is taken out of its tables and given up. -/
theorem ledger_abandoned (cnf : Cnf) (c' : Conn) (L : Ledger (seen v i w) claim home)
    (hb : home b = some (.held i)) (hc : w.heap b = some c) (hs : c'.inc.sock = c.inc.sock) (now : Int) (l : List Ev) :
    ∃ claim', Ledger (seen v i (lost cnf (detached w c) b c' now l)) claim' (update home b none) := by
  have hu := ledger_unhold L hb hc
  have hi : update claim (.conn b .dst) none (.conn b .inc) = some c'.inc.sock := by
    rw [update_of_ne (by simp), hs]
    exact L.claims hb hc .inc
  obtain ⟨claim', hl⟩ := ledger_lost cnf hu (by simp) hi now l
  rw [update_idem] at hl
  have heq : seen v i (lost cnf (putConn (detached w c) b (onSock c (-1))) b c' now l) =
      seen v i (lost cnf (detached w c) b c' now l) := by
    simp [seen, lost, logs, putConn]
  exact ⟨claim', heq ▸ hl⟩

/-- A connection that the pool holds is closed. -/
theorem ledger_gone (cnf : Cnf) (L : Ledger (seen v i w) claim home) (hb : home b = some (.held i))
    (hc : w.heap b = some c) (notify : Bool) :
    ∃ claim', Ledger (seen v i (gone cnf w b c notify)) claim' (update home b none) := by
  obtain ⟨claim', hl⟩ := ledger_abandoned cnf c L hb hc rfl 0 []
  have heq : seen v i (lost cnf (detached w c) b c 0 []) = seen v i (gone cnf w b c notify) := by
    cases notify <;>
      simp [seen, lost, gone, logs, detached, unroute, forget, World.close, World.free, routerLeaves, ctlFd]
  exact ⟨claim', heq ▸ hl⟩

/-- The block in the pool's hands is registered. -/
theorem ledger_attached (L : Ledger (seen v i w) claim home) (hb : home b = some .hand)
    (hc : w.heap b = some c) (hd : 0 ≤ c.dst.sock) :
    Ledger (seen v i (attached w b c)) claim (update home b (some (.held i))) := by
  have ha := L.attach i ⟨registered c.inc, registered c.dst⟩ hb hc hd
    (by intro s; cases s <;> rfl) id
  have heq : (seen v i w).attach i b ⟨registered c.inc, registered c.dst⟩ =
      seen v i (attached w b c) := by
    simp [View.attach, seen, attached, route, putConn, registered, ctlFd]
  exact heq ▸ ha

/-- The block in the pool's hands gets a descriptor of its own to the server. -/
theorem ledger_socket (fd : Fd) (L : Ledger (seen v i w) claim home) (hb : home b = some .hand)
    (hc : w.heap b = some c) (hp : 0 < fd) (hf : w.isOpen fd = false) :
    Ledger (seen v i (attached (opened w fd) b (onSock c fd)))
      (update claim (.conn b .dst) (some fd)) (update home b (some (.held i))) := by
  have hs : Ledger (seen v i (putConn (opened w fd) b (onSock c fd)))
      (update claim (.conn b .dst) (some fd)) home := L.socket hb hc hp hf
  have ha := ledger_attached hs hb (put_conn_heap _ _ _) (Int.le_of_lt hp)
  have heq : attached (putConn (opened w fd) b (onSock c fd)) b (onSock c fd) =
      attached (opened w fd) b (onSock c fd) := by
    simp [attached]
  exact heq ▸ ha

theorem ledger_added (L : Ledger (seen v i w) claim home) (hb : home b = some .hand)
    (hc : w.heap b = some c) (hs : Socketed w c w1 c1) :
    ∃ claim', Ledger (seen v i (attached w1 b c1)) claim' (update home b (some (.held i))) := by
  rcases hs with ⟨hd, rfl, rfl⟩ | ⟨_, fd, hp, hf, rfl, rfl⟩
  · exact ⟨_, ledger_attached L hb hc hd⟩
  · exact ⟨_, ledger_socket fd L hb hc hp hf⟩

/-- A connection that the pool holds moves to another server. -/
theorem ledger_moved (L : Ledger (seen v i w) claim home) (hb : home b = some (.held i))
    (hc : w.heap b = some c) (addr : SockAddr) (hp : 0 < fd)
    (hf : (detached w c).isOpen fd = false) :
    ∃ claim', Ledger (seen v i (attached (opened (detached w c) fd) b
      (onSock (retarget c addr) fd))) claim' home := by
  have hu := ledger_unhold L hb hc
  have hk := ledger_put (onSock (retarget c addr) (-1)) hu (put_conn_heap _ _ _)
    (by intro s; cases s <;> rfl) id []
  have hs := ledger_socket fd hk (by simp) (put_conn_heap _ _ _) hp hf
  have hhome : update (update home b (some .hand)) b (some (.held i)) = home := by
    rw [update_idem, ← hb, update_eq_self]
  rw [hhome] at hs
  have heq : seen v i (attached (opened (putConn (logs (putConn (detached w c) b (onSock c (-1))) [])
      b (onSock (retarget c addr) (-1))) fd) b (onSock (onSock (retarget c addr) (-1)) fd)) =
      seen v i (attached (opened (detached w c) fd) b (onSock (retarget c addr) fd)) := by
    simp [seen, attached, opened, route, putConn, logs, onSock, ctlFd]
  exact ⟨_, heq ▸ hs⟩

end worlds

/-- A world whose view, with pool `i` in it, has a ledger. -/
def Booked (v : View) (i : Nat) (w : World) : Prop :=
  ∃ claim home, Ledger (seen v i w) claim home

theorem booked_bare (h : bare w' = bare w) (hb : Booked v i w) : Booked v i w' := by
  obtain ⟨claim, home, L⟩ := hb
  exact ⟨claim, home, (seen_bare h).symm ▸ L⟩

/-- What an event on a connection does to the accounts, `reads` being the side that
was read from: where the connection is afterwards, what memory holds of it and what the router was told. -/
inductive Effect (cnf : Cnf) (w : World) (b : Nat) (c : Conn) (reads : Option Side)
    (home : Nat → Option Home) : World → (Nat → Option Home) → Prop
  | kept {u c'} (hh : u.heap = update w.heap b (some c')) (ha : c'.dst.addr = c.dst.addr)
    (hr : u.router = w.router) : Effect cnf w b c reads home u home
  | closed {u} (hh : u.heap = update w.heap b none)
    (hr : u.router = glbRouterDisconnect cnf 0 w.router c.dst.addr false) :
    Effect cnf w b c reads home u (update home b none)
  | detached {u} (ho : reads = some .dst) (hi : c.dst.kind = .incomplete) (hh : u.heap = w.heap) (hr : u.router = w.router) :
    Effect cnf w b c reads home u (update home b none)
  | refused {u env} (hh : u.heap = update w.heap b none) (hn : (again cnf w c env).2 = none)
    (hr : u.router = (again cnf w c env).1) : Effect cnf w b c reads home u (update home b none)
  | moved {u env addr c'} (hh : u.heap = update w.heap b (some c')) (ha : c'.dst.addr = addr)
    (hs : (again cnf w c env).2 = some addr) (hr : u.router = (again cnf w c env).1) :
    Effect cnf w b c reads home u home
  | abandoned {u env addr now} (hh : u.heap = update w.heap b none)
    (hs : (again cnf w c env).2 = some addr)
    (hr : u.router = glbRouterDisconnect cnf now (again cnf w c env).1 addr true) :
    Effect cnf w b c reads home u (update home b none)

theorem gone_router (cnf : Cnf) (w : World) (b : Nat) (c : Conn) :
    (gone cnf w b c true).router = glbRouterDisconnect cnf 0 w.router c.dst.addr false ∧
    (gone cnf w b c false).router = w.router := ⟨rfl, rfl⟩

theorem read_effect (L : Ledger (seen v i w) claim home) (hb : home b = some (.held i))
    (hc : w.heap b = some c) (hf : ReadFate cnf w b c s recv send u) :
    ∃ claim' home', Ledger (seen v i u) claim' home' ∧ Effect cnf w b c (some s.other) home u home' := by
  have hsame : w.heap = update w.heap b (some c) := by rw [← hc, update_eq_self]
  cases hf with
  | full _ => exact ⟨claim, home, L, .kept hsame rfl rfl⟩
  | nothing _ => exact ⟨claim, home, L, .kept hsame rfl rfl⟩
  | closed _ _ =>
    obtain ⟨claim', L'⟩ := ledger_gone cnf (w := logs w [recvEv b c s []]) L hb hc true
    exact ⟨claim', _, L', .closed (gone_heap _ _ _ _ _) (gone_router _ _ _ _).1⟩
  | detach _ hs hi =>
    obtain ⟨claim', L'⟩ := ledger_detached (w := logs w [recvEv b c s []]) L hb hc
    exact ⟨claim', _, L', .detached (by rw [hs]; rfl) hi rfl rfl⟩
  | passed avail bytes _ _ _ _ =>
    have hfix := read_fixed c s bytes send
    refine ⟨claim, home, ledger_put _ L hc (fun t => (hfix t).1) (fun hk => ?_) _, .kept rfl (hfix .dst).2.2 rfl⟩
    exact stall_kinds (sent_kinds (filled_kinds hk s bytes) s send false) s
  | broken bytes _ _ _ _ =>
    have L1 := ledger_put _ L hc (filled_socks c s bytes) (fun hk => filled_kinds hk s bytes)
      [recvEv b c s bytes, sendEv b (filled c s bytes) s send]
    obtain ⟨claim', L'⟩ := ledger_gone cnf L1 hb (put_conn_heap _ _ _) true
    have ha : (filled c s bytes).dst.addr = c.dst.addr := by cases s <;> rfl
    refine ⟨claim', _, L', .closed ?_ ?_⟩
    · rw [gone_heap]
      simp [putConn, logs]
    · rw [(gone_router _ _ _ _).1, ha]
      rfl

theorem write_effect (L : Ledger (seen v i w) claim home) (hb : home b = some (.held i))
    (hc : w.heap b = some c) (hf : WriteFate cnf w b c s env send u) :
    ∃ claim' home', Ledger (seen v i u) claim' home' ∧ Effect cnf w b c none home u home' := by
  have hset : Ledger (seen v i (putConn (logs w [sendEv b (settled c s) s send]) b (settled c s)))
      claim home := ledger_put _ L hc (settled_socks c s) (fun hk => settled_kinds hk s) _
  have ha : (settled c s).dst.addr = c.dst.addr := by
    unfold settled
    split <;> rfl
  have hfree : ∀ v : World, ∀ c1 n, v.heap = w.heap →
      (gone cnf (putConn v b c1) b c1 n).heap = update w.heap b none := by
    intro v c1 n hv
    rw [gone_heap]
    simp [putConn, hv]
  cases hf with
  | drained _ => exact ⟨claim, home, hset, .kept rfl ha rfl⟩
  | passed _ =>
    refine ⟨claim, home, ledger_put _ L hc (fun t => ?_) (fun hk => ?_) _, .kept rfl ?_ rfl⟩
    · rw [(sent_conn_fixed _ s send true t).1, settled_socks]
    · exact sent_kinds (settled_kinds hk s) s send true
    · exact (sent_conn_fixed _ s send true .dst).2.2.trans ha
  | broken _ =>
    obtain ⟨claim', L'⟩ := ledger_gone cnf hset hb (put_conn_heap _ _ _) true
    refine ⟨claim', _, L', .closed (hfree _ _ _ rfl) ?_⟩
    rw [(gone_router _ _ _ _).1, ha]
    rfl
  | refused _ _ hn =>
    have L1 := ledger_put (w := rerouted cnf w c env) (released c) L hc
      (by intro t; cases t <;> rfl) (fun hk => ⟨hk.1, by simp [released]⟩) []
    obtain ⟨claim', L'⟩ := ledger_gone cnf L1 hb (put_conn_heap _ _ _) false
    rw [logs_nil] at L'
    exact ⟨claim', _, L', .refused (hfree _ _ _ rfl) hn (gone_router _ _ _ _).2⟩
  | moved addr fd _ _ hs hp ho =>
    obtain ⟨claim', L'⟩ := ledger_moved (w := rerouted cnf w c env) L hb hc addr hp ho
    exact ⟨claim', home, L', .moved (attached_heap _ _ _) rfl hs rfl⟩
  | abandoned addr l _ _ hs _ =>
    obtain ⟨claim', L'⟩ := ledger_abandoned (w := rerouted cnf w c env) cnf (retarget c addr) L hb hc rfl
      env.addNow l
    exact ⟨claim', _, L', .abandoned rfl hs rfl⟩

/-- Connections that a scan of `route_map` removed, one after the other. -/
inductive Removals (cnf : Cnf) : World → World → Prop
  | done (w : World) : Removals cnf w w
  | gone {w w1 u : World} {b : Nat} {c : Conn} (hh : Held w b c) (hk : Kinds c)
    (hw : bare w1 = bare (gone cnf w b c false)) (hr : Removals cnf w1 u) : Removals cnf w u
  | detached {w w1 u : World} {b : Nat} {c : Conn} (hh : Held w b c) (hk : Kinds c)
    (hi : c.dst.kind = .incomplete) (hw : bare w1 = bare (detached w c))
    (hr : Removals cnf w1 u) : Removals cnf w u

/-- The rule for scans: what survives one removal survives all. -/
theorem removals_keep (inv : World → Prop) (hr : Removals cnf w u)
    (hbare : ∀ w w', bare w' = bare w → inv w → inv w')
    (hgone : ∀ w b c, Held w b c → Kinds c → inv w → inv (PoolFrame.gone cnf w b c false))
    (hdet : ∀ w b c, Held w b c → Kinds c → c.dst.kind = .incomplete → inv w →
      inv (PoolFrame.detached w c))
    (hw : inv w) : inv u := by
  induction hr with
  | done w => exact hw
  | gone hh hk hb _ ih => exact ih (hbare _ _ hb (hgone _ _ _ hh hk hw))
  | detached hh hk hi hb _ ih => exact ih (hbare _ _ hb (hdet _ _ _ hh hk hi hw))

theorem booked_gone (hb : Booked v i w) (hh : Held w b c) (notify : Bool) :
    Booked v i (gone cnf w b c notify) := by
  obtain ⟨claim, home, L⟩ := hb
  obtain ⟨claim', L'⟩ := ledger_gone cnf L (held_home L hh) hh.block notify
  exact ⟨claim', _, L'⟩

theorem booked_detached (hb : Booked v i w) (hh : Held w b c) : Booked v i (detached w c) := by
  obtain ⟨claim, home, L⟩ := hb
  obtain ⟨claim', L'⟩ := ledger_detached L (held_home L hh) hh.block
  exact ⟨claim', _, L'⟩

/-- A removal at a routed descriptor, and the connection it is of. -/
theorem removed_cases (hb : Booked v i w) (hp : w.routeMap fd = some p)
    (h : poolRemoveConn build cnf w fd false = some w') :
    ∃ b c, ∃ s : Side, Held w b c ∧ Kinds c ∧ fd = (side c s).sock ∧ Booked v i w' ∧
      (bare w' = bare (gone cnf w b c false) ∨
        c.dst.kind = .incomplete ∧ bare w' = bare (detached w c)) := by
  have hbooked := hb
  obtain ⟨claim, home, L⟩ := hb
  obtain ⟨b, c, s, _, hh, hk, hfd⟩ := served L hp
  rw [hfd] at h
  have hrem := remove_spec hh hk s h
  split at hrem
  · exact ⟨b, c, s, hh, hk, hfd, booked_bare hrem (booked_gone hbooked hh false), .inl hrem⟩
  · rename_i hinc
    have hi : c.dst.kind = .incomplete := by simp_all
    exact ⟨b, c, s, hh, hk, hfd, booked_bare hrem (booked_detached hbooked hh), .inr ⟨hi, hrem⟩⟩

theorem scan_cases (hb : Booked v i w) (h : scanLoop build cnf hit n fd count w = some w') :
    ∃ u, Removals cnf w u ∧ bare w' = bare u := by
  refine scan_keeps (Booked v i) (fun w w' => ∃ u, Removals cnf w u ∧ bare w' = bare u)
    (fun w => ⟨w, .done w, rfl⟩) ?_ hb h
  intro w w1 fd p hb hp h1
  obtain ⟨b, c, s, hh, hk, _, hb1, hcase⟩ := removed_cases hb hp h1
  refine ⟨hb1, fun w' hw' => ?_⟩
  obtain ⟨u, hu, hw⟩ := hw'
  rcases hcase with hrem | ⟨hi, hrem⟩
  · exact ⟨u, .gone hh hk hrem hu, hw⟩
  · exact ⟨u, .detached hh hk hi hrem hu, hw⟩

theorem removals_booked (hr : Removals cnf w u) (hb : Booked v i w) : Booked v i u :=
  removals_keep (Booked v i) hr (fun _ _ h => booked_bare h) (fun _ _ _ hh _ hb => booked_gone hb hh false)
    (fun _ _ _ hh _ _ hb => booked_detached hb hh) hb

/-- The world with the first ctl read. -/
def popped (w : World) (pipe : List PoolCtl) : World := { w with pipe := pipe }

/-- The world of a pool that leaves its loop. -/
def ended (w : World) : World := { w.close w.ctlRecv with shutdown := true }

/-- Everything that one step of a pool thread can come to. -/
inductive Fate (cnf : Cnf) (i : Nat) (w : World) : DaemonOp → World → Prop
  | read {b c s recv send u} (hh : Held w b c) (hk : Kinds c)
    (hf : ReadFate cnf w b c s recv send u) : Fate cnf i w (.read i (side c s.other).sock recv send) u
  | write {b c s env send u} (hh : Held w b c) (hk : Kinds c)
    (hf : WriteFate cnf w b c s env send u) : Fate cnf i w (.write i (side c s).sock env send) u
  | lost {b c q l} (env : CtlEnv) (hp : w.pipe = .addConn b :: q)
    (hc : w.heap b = some c) (hd : c.dst.sock < 0) (hl : Silent l) :
    Fate cnf i w (.ctl i env) (lost cnf (popped w q) b c env.now l)
  | added {b c q w1 c1} (env : CtlEnv) (hp : w.pipe = .addConn b :: q)
    (hc : w.heap b = some c) (hs : Socketed (popped w q) c w1 c1) :
    Fate cnf i w (.ctl i env) (attached w1 b c1)
  | stats {q} (env : CtlEnv) (hp : w.pipe = .stats :: q) :
    Fate cnf i w (.ctl i env) (popped w q)
  | dropped {a q w1 u} (env : CtlEnv) (hp : w.pipe = .dropDst a :: q)
    (hw : bare w1 = bare (popped w q)) (hr : Removals cnf w1 u) : Fate cnf i w (.ctl i env) u
  | shutdown {q w1 u} (env : CtlEnv) (hp : w.pipe = .shutdown :: q)
    (hw : bare w1 = bare (popped w q)) (hr : Removals cnf w1 u) : Fate cnf i w (.ctl i env) (ended u)

/-- A ctl without a block leaves the ledger as it is. -/
theorem booked_popped (L : Ledger (seen v i w) claim home) (hp : w.pipe = ctl :: q)
    (hc : ∀ b, ctl ≠ .addConn b) : Ledger (seen v i (popped w q)) claim home := by
  have hq : adds w.pipe = adds q := by
    rw [hp]
    cases ctl with
    | addConn b => exact absurd rfl (hc b)
    | dropDst a => rfl
    | stats => rfl
    | shutdown => rfl
  have heq : seen v i (popped w q) = seen v i w := by
    have hctl : ctlFd (popped w q).toPool = ctlFd w.toPool := rfl
    simp only [seen, hctl, hq]
    rfl
  exact heq ▸ L

/-- A ctl with a block puts the block into the pool's hands. -/
theorem ledger_popped (L : Ledger (seen v i w) claim home) (hp : w.pipe = .addConn b :: q) :
    home b = some (.queued i) ∧
      Ledger (seen v i (popped w q)) claim (update home b (some .hand)) := by
  have hq : (seen v i w).queue i = b :: adds q := by simp [seen, hp, adds]
  obtain ⟨hb, hl⟩ := L.pop hq
  refine ⟨hb, ?_⟩
  have heq : { seen v i w with queue := update (seen v i w).queue i (adds q) } =
      seen v i (popped w q) := by
    have hctl : ctlFd (popped w q).toPool = ctlFd w.toPool := rfl
    simp only [seen, hctl, update_idem]
    rfl
  exact heq ▸ hl

theorem read_fate (L : Ledger (seen v i w) claim home)
    (h : (poolHandleRead build cnf w fd recv send).map Prod.fst = some w') :
    ∃ u, Fate cnf i w (.read i fd recv send) u ∧ bare w' = bare u := by
  obtain ⟨⟨w1, ret⟩, h1, hw1⟩ := Option.map_eq_some_iff.mp h
  obtain ⟨p, hp⟩ := read_routed h1
  obtain ⟨b, c, s, _, hh, hk, rfl⟩ := served L hp
  rw [← other_other s] at h1 ⊢
  obtain ⟨u, hu, hw⟩ := read_cases hh hk s.other h1
  exact ⟨u, .read hh hk hu, hw1 ▸ hw⟩

theorem write_fate (L : Ledger (seen v i w) claim home)
    (h : poolHandleWrite build cnf w fd env send = some w') :
    ∃ u, Fate cnf i w (.write i fd env send) u ∧ bare w' = bare u := by
  obtain ⟨p, hp⟩ := write_routed h
  obtain ⟨b, c, s, _, hh, hk, rfl⟩ := served L hp
  obtain ⟨u, hu, hw⟩ := write_cases hh hk s h
  exact ⟨u, .write hh hk hu, hw⟩

/-- A ctl that brings no connection leaves the books as they are. -/
theorem booked_fetched (L : Ledger (seen v i w) claim home) (hp : w.pipe = ctl :: q)
    (hc : ∀ b, ctl ≠ .addConn b) : Booked v i (fetched w q) :=
  booked_bare (w := popped w q) rfl ⟨claim, home, booked_popped L hp hc⟩

theorem ctl_fate (L : Ledger (seen v i w) claim home)
    (h : poolReadCtl build cnf w env = some w') :
    ∃ u, Fate cnf i w (.ctl i env) u ∧ bare w' = bare u := by
  obtain ⟨st, hread⟩ := ctl_cases h
  cases hread with
  | addConn hp h2 =>
    obtain ⟨hb, _⟩ := ledger_popped L hp
    obtain ⟨c, hc, _⟩ := L.block hb
    rcases add_conn_cases (c := c) (by exact hc) h2 with ⟨hd, l, hl, hw⟩ | ⟨w3, c3, hs, hw⟩
    · exact ⟨_, .lost env hp hc hd hl, hw⟩
    · rcases hs with ⟨h0, rfl, rfl⟩ | ⟨h0, fd, hpos, hfree, rfl, rfl⟩
      · exact ⟨_, .added env hp hc (Or.inl ⟨h0, rfl, rfl⟩), hw⟩
      · exact ⟨_, .added env hp hc (Or.inr ⟨h0, fd, hpos, hfree, rfl, rfl⟩), hw⟩
  | dropDst hp h2 =>
    obtain ⟨u, hu, hw⟩ := scan_cases (booked_fetched L hp (by simp)) h2
    exact ⟨u, .dropped env hp (by exact rfl) hu, hw⟩
  | stats hp => exact ⟨_, .stats env hp, rfl⟩
  | shutdown hp h3 =>
    obtain ⟨u, hu, hw⟩ := scan_cases (booked_fetched L hp (by simp)) h3
    exact ⟨_, .shutdown env hp (by exact rfl) hu, congrArg (fun v => ended v) hw⟩

theorem ledger_ended (L : Ledger (seen v i w) claim home) (hs : w.shutdown = false) :
    ∃ claim', Ledger (seen v i (ended w)) claim' home := by
  have hp : (seen v i w).pipe i = some w.ctlRecv := by simp [seen, ctlFd, hs]
  have hshut := L.shut hp
  have heq : { seen v i w with
      pipe := update (seen v i w).pipe i none
      isOpen := update (seen v i w).isOpen w.ctlRecv false } = seen v i (ended w) := by
    simp [seen, ended, World.close, ctlFd]
  exact ⟨_, heq ▸ hshut⟩

theorem removals_running (hr : Removals cnf w u) (hs : w.shutdown = false) : u.shutdown = false := by
  refine removals_keep (fun w => w.shutdown = false) hr ?_ ?_ ?_ hs
  · intro w w' hb h
    exact (congrArg (fun w => w.shutdown) hb).trans h
  · intro w b c _ _ h
    exact h
  · intro w b c _ _ _ h
    exact h

/-- The ledger can be kept through every step of a pool thread. -/
theorem fate_booked (L : Ledger (seen v i w) claim home) (hs : w.shutdown = false)
    (hf : Fate cnf i w op u) : Booked v i u := by
  cases hf with
  | read hh hk hf =>
    obtain ⟨claim', home', L', _⟩ := read_effect L (held_home L hh) hh.block hf
    exact ⟨claim', home', L'⟩
  | write hh hk hf =>
    obtain ⟨claim', home', L', _⟩ := write_effect L (held_home L hh) hh.block hf
    exact ⟨claim', home', L'⟩
  | @lost b c q l env hp hc hd hl =>
    obtain ⟨hb, L'⟩ := ledger_popped L hp
    have hi := (L.unique hb hc).2.1
    obtain ⟨claim', L''⟩ := ledger_lost cnf L' (by simp) hi env.now l
    exact ⟨claim', _, L''⟩
  | added env hp hc hs =>
    obtain ⟨_, L'⟩ := ledger_popped L hp
    obtain ⟨claim', L''⟩ := ledger_added L' (by simp) hc hs
    exact ⟨claim', _, L''⟩
  | stats env hp => exact ⟨claim, home, booked_popped L hp (by simp)⟩
  | dropped env hp hw hr =>
    exact removals_booked hr (booked_bare hw ⟨claim, home, booked_popped L hp (by simp)⟩)
  | shutdown env hp hw hr =>
    obtain ⟨claim', home', L'⟩ := removals_booked hr
      (booked_bare hw ⟨claim, home, booked_popped L hp (by simp)⟩)
    have hs' := (congrArg (fun w => w.shutdown) hw).trans hs
    obtain ⟨claim2, L2⟩ := ledger_ended L' (removals_running hr hs')
    exact ⟨claim2, home', L2⟩

end Glb.Proofs.DaemonLedger
