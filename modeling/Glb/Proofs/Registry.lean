import Glb.Lib.Run
import Glb.Proofs.DaemonLedger
import Glb.Proofs.DaemonSteps
import Glb.Proofs.RouterRun

namespace Glb.Proofs.Registry
open Function Lib.Claims PoolFrame DaemonSteps Ownership DaemonLedger RouterRun

variable {build : Build} {cnf : Cnf} {ctrl : Ctrl} {d d' : Daemon}
variable {claim : Owner → Option Fd} {home : Nat → Option Home} {i b : Nat}

/-- What a pool thread did in one step of the daemon. -/
structure PoolStep (cnf : Cnf) (d : Daemon) (op : DaemonOp) (d' : Daemon) (i : Nat) (p : Pool)
    (u w' : World) : Prop where
  pool : d.pools[i]? = some p
  running : p.shutdown = false
  fate : Fate cnf i (d.world p) op u
  bare : bare w' = bare u
  put : d' = d.put i w'

theorem pool_step (L : Ledger (view d) claim home)
    (h : d.onPool i handle = some d')
    (hf : ∀ {v w w'}, Ledger (seen v i w) claim home → handle w = some w' →
      ∃ u, Fate cnf i w op u ∧ bare w' = bare u) :
    ∃ p u w', PoolStep cnf d op d' i p u w' := by
  obtain ⟨p, w', hp, hs, hw, rfl⟩ := on_pool h
  obtain ⟨u, hu, hb⟩ := hf (pool_ledger L hp) hw
  exact ⟨p, u, w', hp, hs, hu, hb, rfl⟩

/-- One step of the daemon, by the thread that takes it. -/
inductive Step (cnf : Cnf) (ctrl : Ctrl) (d : Daemon) : DaemonOp → Daemon → Prop
  | accept {fd addr sock env d'} (hl : d.listener = .idle) (hp : 0 < fd) (hf : d.isOpen fd = false)
    (h : AcceptFate cnf d fd addr env d') : Step cnf ctrl d (.accept fd addr sock env) d'
  | connected {error now env inc addr sock hint i d'}
    (hl : d.listener = .connecting inc addr sock hint i)
    (h : ConnectedFate cnf d inc addr sock hint i now env d') :
    Step cnf ctrl d (.connected error now env) d'
  | addConn {malloc write inc addr sock dst complete d'}
    (hl : d.listener = .chosen inc addr sock dst complete)
    (h : AddFate cnf d inc addr sock dst complete d') : Step cnf ctrl d (.addConn malloc write) d'
  | pool {op d' i p u w'} (h : PoolStep cnf d op d' i p u w') : Step cnf ctrl d op d'
  | request {req env d'} (h : ctrlHandleRequest cnf ctrl d req env = some d') :
    Step cnf ctrl d (.request req env) d'
  | drop (dst : SockAddr) : Step cnf ctrl d (.drop dst) (poolBcastCtl d (.dropDst dst))
  | destroy : Step cnf ctrl d .destroy (poolBcastCtl d .shutdown)

theorem step_cases (L : Ledger (view d) claim home) (h : daemonStep build cnf ctrl d op = some d') :
    Step cnf ctrl d op d' := by
  cases op with
  | accept fd addr sock env =>
    obtain ⟨hl, hp, hf, h⟩ := accept_cases h
    exact .accept hl hp hf h
  | connected error now env =>
    obtain ⟨inc, addr, sock, hint, i, hl, h⟩ := connected_cases h
    exact .connected hl h
  | addConn malloc write =>
    obtain ⟨inc, addr, sock, dst, complete, hl, h⟩ := add_cases h
    exact .addConn hl h
  | ctl i env =>
    have hp : d.onPool i (fun w => poolReadCtl build cnf w env) = some d' := h
    obtain ⟨p, u, w', h⟩ := pool_step L hp ctl_fate
    exact .pool h
  | read i fd recv send =>
    have hp : d.onPool i (fun w => (poolHandleRead build cnf w fd recv send).map Prod.fst) =
      some d' := h
    obtain ⟨p, u, w', h⟩ := pool_step L hp read_fate
    exact .pool h
  | write i fd env send =>
    have hp : d.onPool i (fun w => poolHandleWrite build cnf w fd env send) = some d' := h
    obtain ⟨p, u, w', h⟩ := pool_step L hp write_fate
    exact .pool h
  | request req env => exact .request h
  | drop dst =>
    simp only [daemonStep, Option.some.injEq] at h
    exact h ▸ .drop dst
  | destroy =>
    simp only [daemonStep, Option.some.injEq] at h
    exact h ▸ .destroy

/-- Pools are neither started nor ended. -/
theorem step_pools (h : Step cnf ctrl d op d') : d'.pools.length = d.pools.length := by
  cases h with
  | accept _ _ _ h => cases h <;> rfl
  | connected _ h => cases h <;> rfl
  | addConn _ h =>
    cases h with
    | noMemory => rfl
    | unsent => rfl
    | queued => simp [enqueued, allocated]
  | pool h =>
    rw [h.put]
    simp [Daemon.put]
  | request h =>
    obtain ⟨⟨ctls, _, hpools⟩, _⟩ := request_frame h
    simp [hpools]
  | drop dst => simp [poolBcastCtl]
  | destroy => simp [poolBcastCtl]

/-- Every descriptor and every block of the daemon is accounted for. -/
def Registered (d : Daemon) : Prop := ∃ claim home, Ledger (view d) claim home

theorem view_signalled (hs : Signalled d d') (hh : d'.heap = d.heap) (ho : d'.isOpen = d.isOpen)
    (hl : d'.listener = d.listener) (hn : d'.nextBlock = d.nextBlock) : view d' = view d := by
  obtain ⟨ctls, hc, hp⟩ := hs
  have hadds : adds ctls = [] := by
    simp only [adds, List.filterMap_eq_nil_iff]
    intro ctl hm
    cases ctl with
    | addConn b => exact absurd rfl (hc _ hm b)
    | dropDst a => rfl
    | stats => rfl
    | shutdown => rfl
  have hq : ∀ p : Pool, adds (p.pipe ++ ctls) = adds p.pipe := by
    intro p
    simp only [adds, List.filterMap_append] at hadds ⊢
    rw [hadds, List.append_nil]
  unfold view
  simp only [hp, hh, ho, hl, hn, List.getElem?_map, View.mk.injEq, and_true]
  refine ⟨?_, ?_, ?_⟩ <;> funext j <;> cases d.pools[j]? <;> simp [hq, ctlFd]

theorem accept_registered (L : Ledger (view d) claim home) (hl : d.listener = .idle) (hp : 0 < fd)
    (hf : d.isOpen fd = false) (h : AcceptFate cnf d fd addr env d') : Registered d' := by
  have hopen := L.opens hl .client (Or.inl rfl) hp hf
  cases h with
  | turned l _ => exact ⟨claim, home, L⟩
  | none r l _ _ => exact ⟨claim, home, L⟩
  | noneSync r l _ _ => exact ⟨claim, home, L⟩
  | chosen r dst _ =>
    refine ⟨_, home, hopen.listen (.chosen fd addr (-1) dst false) ?_ ?_ ?_⟩
    · intro fd' hc
      simpa [clientFd] using hc
    · intro fd' hc
      simp [serverFd] at hc
    · intro _ _ sock _ hc
      simp only [Listener.chosen.injEq] at hc
      rw [← hc.2.2.1]
      decide
  | connecting r i sock hps hfs _ =>
    have hboth := hopen.opens hl .server (Or.inr rfl) hps hfs
    refine ⟨_, home, hboth.listen (.connecting fd addr sock (connectHint cnf addr) i) ?_ ?_ ?_⟩
    · intro fd' hc
      simpa [clientFd] using hc
    · intro fd' hc
      simpa [serverFd] using hc
    · intro _ _ _ _ hc
      cases hc

theorem connected_registered (L : Ledger (view d) claim home)
    (hl : d.listener = .connecting inc addr sock hint i)
    (h : ConnectedFate cnf d inc addr sock hint i now env d') : Registered d' := by
  have hci : claim .client = some inc := L.client (by simp [view, hl, clientFd])
  have hcs : claim .server = some sock := L.server (by simp [view, hl, serverFd])
  have hidle : Ledger { view d with listener := .idle } claim home :=
    L.listen .idle (by simp [clientFd]) (by simp [serverFd]) (by simp)
  cases h with
  | retry r j _ =>
    refine ⟨claim, home, L.listen (.connecting inc addr sock hint j) ?_ ?_ (by simp)⟩
    · intro fd hc
      simpa [clientFd, hci] using hc
    · intro fd hc
      simpa [serverFd, hcs] using hc
  | failed r _ =>
    have h1 := hidle.closes rfl .server (Or.inr rfl) hcs
    have h2 := h1.closes rfl .client (Or.inl rfl) (by simpa using hci)
    exact ⟨_, home, h2⟩
  | done dst _ =>
    refine ⟨claim, home, L.listen (.chosen inc addr sock dst true) ?_ ?_ (by simp)⟩
    · intro fd hc
      simpa [clientFd, hci] using hc
    · intro fd hc
      simpa [serverFd, hcs] using hc
  | pending dst _ =>
    have h1 := hidle.closes rfl .server (Or.inr rfl) hcs
    refine ⟨_, home, h1.listen (.chosen inc addr (-EINPROGRESS) dst false) ?_ ?_ ?_⟩
    · intro fd hc
      simpa [clientFd, hci] using hc
    · intro fd hc
      simp [serverFd] at hc
    · intro _ _ _ _ hc
      simp only [Listener.chosen.injEq] at hc
      rw [← hc.2.2.1]
      decide

/-- The listener gives a client up. -/
theorem undo_registered (L : Ledger (view d) claim home)
    (hl : d.listener = .chosen inc addr sock dst complete) :
    Registered (listenerUndo cnf d inc sock dst) := by
  have hci : claim .client = some inc := L.client (by simp [view, hl, clientFd])
  have hidle : Ledger { view d with listener := .idle } claim home :=
    L.listen .idle (by simp [clientFd]) (by simp [serverFd]) (by simp)
  cases complete with
  | true =>
    have hcs : claim .server = some sock := L.server (by simp [view, hl, serverFd])
    have h1 := hidle.closes rfl .server (Or.inr rfl) hcs
    have h2 := h1.closes rfl .client (Or.inl rfl) (by simpa using hci)
    exact ⟨_, home, h2⟩
  | false =>
    have hneg : sock < 0 := L.unconnected (by simpa [view] using hl)
    have h1 := hidle.close sock (by
      intro o ho
      have hpos := hidle.pos ho
      exact absurd hpos (Int.lt_asymm hneg))
    have h2 := h1.closes rfl .client (Or.inl rfl) hci
    exact ⟨_, home, h2⟩

theorem ledger_alloc (L : Ledger (view d) claim home) (c : Conn) :
    Ledger (view (allocated d c)) claim home := L.alloc c

theorem view_enqueued (hi : i < d.pools.length) :
    view (enqueued d i b) = { view d with
      queue := update (view d).queue i ((view d).queue i ++ [b])
      listener := .idle } := by
  have hget : ∀ j, (enqueued d i b).pools[j]? =
      (d.pools[j]?).map fun p => if j = i then { p with pipe := p.pipe ++ [.addConn b] } else p := by
    intro j
    simp only [enqueued, List.getElem?_modify]
    by_cases hj : i = j
    · simp [hj]
    · have hji : ¬ j = i := fun h => hj h.symm
      simp [hj, hji]
  unfold view
  simp only [hget, View.mk.injEq]
  refine ⟨?_, ?_, ?_, rfl, rfl, rfl, rfl⟩
  · funext j fd
    by_cases hj : j = i <;> cases d.pools[j]? <;> simp [hj]
  · funext j
    by_cases hj : j = i
    · subst hj
      simp [List.getElem?_eq_getElem hi, adds]
    · rw [update_of_ne hj]
      cases d.pools[j]? <;> simp [hj]
  · funext j
    by_cases hj : j = i <;> cases d.pools[j]? <;> simp [hj, ctlFd]

/-- A block that no pool exists to take is left alone. -/
theorem view_not_enqueued (hi : d.pools.length ≤ i) :
    view (enqueued d i b) = { view d with listener := .idle } := by
  have hsame : (enqueued d i b).pools = d.pools := List.modify_eq_self hi
  unfold view
  rw [hsame]
  rfl

theorem new_conn_kinds : Kinds (newConn inc addr sock dst complete) := by
  cases complete <;> simp [Kinds, newConn]

/-- The listener hands a block and its descriptors to a pool. -/
theorem ledger_queued (L : Ledger (view d) claim home)
    (hl : d.listener = .chosen inc addr sock dst complete)
    (hi : poolGetPool d.pools < d.pools.length) :
    ∃ claim', Ledger (view (enqueued (allocated d (newConn inc addr sock dst complete))
        (poolGetPool d.pools) d.nextBlock)) claim'
      (update home d.nextBlock (some (.queued (poolGetPool d.pools)))) := by
  have hci : claim .client = some inc := L.client (by simp [view, hl, clientFd])
  have hcs : 0 ≤ sock → claim .server = some sock := by
    intro h0
    cases complete with
    | true => exact L.server (by simp [view, hl, serverFd])
    | false =>
      have hneg : sock < 0 := L.unconnected (by simpa [view] using hl)
      exact absurd h0 (Int.not_le.mpr hneg)
  have L1 := (ledger_alloc L (newConn inc addr sock dst complete)).listen .idle
    (by simp [clientFd]) (by simp [serverFd]) (by simp)
  obtain ⟨claim', L2⟩ := L1.enqueue rfl L.home_next (c := newConn inc addr sock dst complete)
    (by simp [view, allocated]) new_conn_kinds hci hcs (poolGetPool d.pools)
  have heq := view_enqueued (d := allocated d (newConn inc addr sock dst complete))
    (b := d.nextBlock) hi
  exact ⟨claim', heq ▸ L2⟩

theorem add_registered (L : Ledger (view d) claim home)
    (hl : d.listener = .chosen inc addr sock dst complete)
    (h : AddFate cnf d inc addr sock dst complete d') : Registered d' := by
  cases h with
  | noMemory => exact undo_registered L hl
  | unsent => exact undo_registered (ledger_alloc L _) hl
  | queued =>
    by_cases hi : poolGetPool d.pools < d.pools.length
    · obtain ⟨claim', L'⟩ := ledger_queued L hl hi
      exact ⟨claim', _, L'⟩
    · have L1 := (ledger_alloc L (newConn inc addr sock dst complete)).listen .idle
        (by simp [clientFd]) (by simp [serverFd]) (by simp)
      have heq := view_not_enqueued (d := allocated d (newConn inc addr sock dst complete))
        (b := d.nextBlock) (Nat.le_of_not_lt hi)
      exact ⟨claim, home, heq ▸ L1⟩

/-- One step of the daemon keeps every descriptor and block accounted for. -/
theorem registered_step (hr : Registered d) (h : daemonStep build cnf ctrl d op = some d') :
    Registered d' := by
  obtain ⟨claim, home, L⟩ := hr
  cases step_cases L h with
  | accept hl hp hf h => exact accept_registered L hl hp hf h
  | connected hl h => exact connected_registered L hl h
  | addConn hl h => exact add_registered L hl h
  | pool hs =>
    obtain ⟨hp, hrun, hf, hb, rfl⟩ := hs
    have L' := pool_ledger L hp
    obtain ⟨claim', home', L''⟩ := booked_bare hb (fate_booked L' hrun hf)
    rw [← view_put (List.getElem?_eq_some_iff.mp hp).1] at L''
    exact ⟨claim', home', L''⟩
  | request h =>
    obtain ⟨hs, hh, ho, _, hl, hn⟩ := request_frame h
    exact ⟨claim, home, (view_signalled hs hh ho hl hn).symm ▸ L⟩
  | drop dst =>
    have hv := view_signalled (bcast_signalled (d := d) (.dropDst dst) (by simp)) rfl rfl rfl rfl
    exact ⟨claim, home, hv.symm ▸ L⟩
  | destroy =>
    have hv := view_signalled (bcast_signalled (d := d) .shutdown (by simp)) rfl rfl rfl rfl
    exact ⟨claim, home, hv.symm ▸ L⟩

/-- At the start only the pipes are held. -/
def pipeClaim (pipes : List Fd) : Owner → Option Fd
  | .pipe i => pipes[i]?
  | _ => none

/-- A daemon that starts with each pool on an open pipe of its own is accounted
for. -/
theorem registered_init (hn : pipes.Nodup) (hu : ∀ fd ∈ pipes, 0 < fd ∧ used fd = true)
    (router : Router) : Registered (Daemon.init pipes used router) := by
  have hget : ∀ i : Nat, (Daemon.init pipes used router).pools[i]? = pipes[i]?.map Pool.init := by
    intro i
    simp [Daemon.init]
  have hclaim : ∀ {o fd}, pipeClaim pipes o = some fd →
      ∃ i : Nat, o = .pipe i ∧ pipes[i]? = some fd := by
    intro o fd ho
    cases o with
    | pipe i => exact ⟨i, rfl, ho⟩
    | conn b s => cases ho
    | client => cases ho
    | server => cases ho
  refine ⟨pipeClaim pipes, fun _ => none, ⟨?_, ?_⟩, ?_, ?_, ?_, ?_, ?_, ?_, ?_, ?_, ?_, ?_, ?_⟩
  · intro o o' fd ho ho'
    obtain ⟨i, rfl, hi⟩ := hclaim ho
    obtain ⟨j, rfl, hj⟩ := hclaim ho'
    have hlt := (List.getElem?_eq_some_iff.mp hi).1
    exact congrArg Owner.pipe ((List.getElem?_inj hlt hn).mp (hi.trans hj.symm))
  · intro o fd ho
    obtain ⟨i, rfl, hi⟩ := hclaim ho
    exact (hu fd (List.mem_of_getElem? hi)).2
  · intro o fd ho
    obtain ⟨i, rfl, hi⟩ := hclaim ho
    exact (hu fd (List.mem_of_getElem? hi)).1
  · intro b h hb
    cases hb
  · intro b c hc
    cases hc
  · intro b i c hb
    cases hb
  · intro i fd p hr
    simp only [view, hget] at hr
    cases hi : pipes[i]? with
    | none => simp [hi] at hr
    | some x => simp [hi, Pool.init] at hr
  · intro b i
    simp only [view, hget]
    cases hi : pipes[i]? with
    | none => simp
    | some x => simp [Pool.init, adds]
  · intro i
    simp only [view, hget]
    cases hi : pipes[i]? with
    | none => simp
    | some x => simp [Pool.init, adds]
  · intro fd hc
    cases hc
  · intro fd hc
    cases hc
  · intro inc a sock da hc
    cases hc
  · intro i fd hp
    simp only [view, hget] at hp
    cases hi : pipes[i]? with
    | none => simp [hi] at hp
    | some x =>
      simp only [hi, Option.map_some, Option.bind_some, ctlFd, Pool.init, Bool.false_eq_true,
        ↓reduceIte] at hp
      exact hi.trans hp

/- What the concrete runs are made of: a balancer with one pool on the pipe 5 and
no watchdog, and a first client that it takes to the server A on the sockets 6
and 7. -/

def leastConns : Cnf := ⟨.least, false, 10 ^ 9, 0, 100, false, false, 0⟩

def noWdog : Ctrl := ⟨true, false⟩

def oneDaemon : Daemon := Daemon.init [5] (fun fd => fd = 5) Router.init

def clientAddr : SockAddr := ⟨2, 40000, ⟨10, 0, 0, 9⟩, 0⟩

def addServer (addr : SockAddr) : DaemonOp := .request (.change ⟨addr, 1⟩) ⟨100, 100, true⟩

def connectA : List DaemonOp :=
  [addServer serverA, .accept 6 clientAddr (-1) (chooseAt 100), .addConn true true,
    .ctl 0 ⟨.socket 7 EINPROGRESS, 100, fun _ => serverB⟩]

/-- The client sends three bytes, of which the server's socket takes `n`. -/
def threeBytes (n : Nat) : List DaemonOp := connectA ++ [.read 0 6 (.data [1, 2, 3]) ⟨n, 0⟩]

/-- A second client on the sockets 8 and 9. -/
def twoClients : List DaemonOp :=
  connectA ++ [.accept 8 clientAddr (-1) (chooseAt 100), .addConn true true,
    .ctl 0 ⟨.socket 9 EINPROGRESS, 100, fun _ => serverB⟩]

/-- The state that the run reaches. -/
def reachedBy (cnf : Cnf) (ops : List DaemonOp) : Daemon :=
  (Lib.Run.exec (daemonStep .epoll cnf noWdog) oneDaemon ops).getD oneDaemon

theorem reached_by (cnf : Cnf) (ops : List DaemonOp)
    (h : (Lib.Run.exec (daemonStep .epoll cnf noWdog) oneDaemon ops).isSome) :
    Lib.Run.exec (daemonStep .epoll cnf noWdog) oneDaemon ops = some (reachedBy cnf ops) :=
  Lib.Run.exec_getD oneDaemon h

end Glb.Proofs.Registry
