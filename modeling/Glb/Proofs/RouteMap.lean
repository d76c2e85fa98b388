import Glb.Limits
import Glb.Proofs.Descriptors

namespace Glb.Proofs.RouteMap
open Function Lib.Run PoolFrame PoolEvents DaemonSteps Ownership DaemonLedger Registry Blocks FdTable FdSteps
open Descriptors RouterRun

variable {build : Build} {cnf : Cnf} {ctrl : Ctrl} {d d' : Daemon} {w w' : World} {b n limit : Nat} {c : Conn}

/-- Every descriptor that is an index of a pool's `route_map` is inside it. -/
def Mapped (d : Daemon) : Prop :=
  ∀ p ∈ d.pools, ∀ fd : Int, p.routeMap fd ≠ none → 0 ≤ fd ∧ fd < poolMaxFd

/-- All open descriptors are below `rlim_cur`. -/
def Below (limit : Nat) (d : Daemon) : Prop := ∀ fd : Int, d.isOpen fd = true → 0 ≤ fd ∧ fd < limit

def LowestFree (isOpen : Fd → Bool) (fd : Fd) : Prop :=
  0 ≤ fd ∧ isOpen fd = false ∧ ∀ x : Int, 0 ≤ x → x < fd → isOpen x = true

/-- The kernel hands out the lowest free descriptor: to `accept ()` and to `socket ()`,
behind it in the listener, in a pool, and there also in place of one that was just
closed. -/
def Lowest (cnf : Cnf) (d : Daemon) : DaemonOp → Prop
  | .accept fd _ sock _ =>
    LowestFree d.isOpen fd ∧ (cnf.synchronous = true → 0 ≤ sock → LowestFree (update d.isOpen fd true) sock)
  | .ctl _ env => ∀ fd error, env.async = .socket fd error → LowestFree d.isOpen fd
  | .write _ old env _ =>
    ∀ fd error, env.async = .socket fd error → LowestFree (update d.isOpen old false) fd
  | _ => True

section bounded

/-- What is in the map is open. -/
theorem mapped_open (hr : Registered d) (hp : p ∈ d.pools) (hfd : p.routeMap fd ≠ none) :
    d.isOpen fd = true := by
  obtain ⟨claim, home, L⟩ := hr
  obtain ⟨i, hi⟩ := List.mem_iff_getElem?.mp hp
  obtain ⟨q, hq⟩ := Option.ne_none_iff_exists'.mp hfd
  obtain ⟨b, c, s, hb, hh, _, rfl⟩ := served (w := d.world p) ((view_world hi).symm ▸ L) hq
  exact L.sound.live (L.claims hb hh.block s)

theorem mapped_below (hr : Registered d) (hb : Below limit d) (hl : limit ≤ poolMaxFd) : Mapped d := by
  intro p hp fd hfd
  obtain ⟨hpos, hlt⟩ := hb fd (mapped_open hr hp hfd)
  exact ⟨hpos, by omega⟩

end bounded

section serve

/-- A pool registers a connection whose `connect ()` is under way. -/
theorem add_conn_attached (T : Tabled build w) (hs : Spare w b c) (hd : c.dst.sock < 0) (cnf : Cnf) {fd : Fd}
    (hpos : 0 < fd) (hfree : w.isOpen fd = false) (now : Int) :
    ∃ w', poolHandleAddConn build cnf w b (.socket fd EINPROGRESS) now = some w' ∧
      bare w' = bare (attached (opened w fd) b (onSock c fd)) := by
  obtain ⟨hr, hc, hne⟩ := hs.fresh hfree
  have hput : (opened w fd).store (dstPtr b) { c.dst with sock := fd } = putConn (opened w fd) b (onSock c fd) :=
    store_ptr (by exact hs.block) .dst _
  have T1 : Tabled build (putConn (opened w fd) b (onSock c fd)) :=
    (T.rewrite hs.unled (some (onSock c fd))).frame rfl rfl rfl rfl
  obtain ⟨w1, w2, h1, h2, _, _⟩ := attach_slots T1 (put_conn_heap _ _ _) hs.kinds hs.inc ⟨hr, hc, hne⟩
  have hasync : poolHandleAsyncConn w (dstPtr b) (.socket fd EINPROGRESS) =
      some (putConn (opened w fd) b (onSock c fd), 0) := by
    unfold poolHandleAsyncConn
    rw [show w.deref (dstPtr b) = some c.dst from deref_ptr hs.block .dst]
    simp only [Option.bind_eq_bind, Option.bind_some, AsyncOut.ok, hpos, hfree, decide_true, Bool.not_false,
      Bool.and_self, Bool.not_true, Bool.false_eq_true, ↓reduceIte, ne_eq, not_true_eq_false, false_and]
    exact congrArg (fun w => some (w, (0 : Int))) hput
  refine ⟨{ w2 with
      nConns := w2.nConns + 1
      stats := { w2.stats with connsOpened := w2.stats.connsOpened + 1 } }, ?_, ?_⟩
  · unfold poolHandleAddConn
    rw [show w.deref (dstPtr b) = some c.dst from deref_ptr hs.block .dst]
    simp only [Option.bind_eq_bind, Option.bind_some, if_pos hd, hasync, ne_eq, not_true_eq_false, ↓reduceIte,
      h1, h2]
  · have hatt := attach_spec (put_conn_heap _ _ _) h1 h2
    have hagain : attached (putConn (opened w fd) b (onSock c fd)) b (onSock c fd) =
        attached (opened w fd) b (onSock c fd) := by
      simp [attached, putConn]
    rw [hagain] at hatt
    exact hatt

/-- Round robin without a top destination, and a daemon with one pool on its pipe, the
usual streams and the listening socket. -/
def plainRound (maxConn : Int) : Cnf := ⟨.round, false, 10 ^ 9, 0, maxConn, false, false, 0⟩

def startup : Daemon := Daemon.init [5] (fun fd => 0 ≤ fd ∧ fd < 7) Router.init

/-- `n` clients are served by A, on the lowest descriptors there are. -/
structure Serving (build : Build) (n : Nat) (d : Daemon) : Prop where
  orderly : TablesOrderly build d
  idle : d.listener = .idle
  pool : ∃ p, d.pools = [p] ∧ p.pipe = [] ∧ p.shutdown = false ∧ (0 < n → p.routeMap (6 + 2 * n : Int) ≠ none)
  files : ∀ fd : Int, d.isOpen fd = true ↔ 0 ≤ fd ∧ fd < 7 + 2 * n
  conns : d.router.conns = n
  dst : ∃ x, d.router.dst = [x] ∧ x.dst = ⟨serverA, 1⟩ ∧ x.failed = 0
  next : d.router.rrbNext = 0
  top : d.router.topDst = none

/-- The only destination is chosen and counted. -/
theorem round_one {r : Router} {x : RouterDst} (maxConn : Int) (hint : UInt32) (hd : r.dst = [x])
    (hx : x.dst = ⟨serverA, 1⟩) (hf : x.failed = 0) (hn : r.rrbNext = 0) (ht : r.topDst = none) :
    ∃ r' y, glbRouterChooseDst (plainRound maxConn) (chooseAt 100) r hint = (r', some serverA) ∧
      r'.conns = r.conns + 1 ∧ r'.dst = [y] ∧ y.dst = ⟨serverA, 1⟩ ∧ y.failed = 0 ∧ r'.rrbNext = 0 ∧
      r'.topDst = none := by
  have hretry : routerRetryInterval (plainRound maxConn) = 1 := by
    change glbTimeApproxSeconds (10 ^ 9) + 1 = 1
    decide
  have hgood : routerDstIsGood x glbDblEpsilon 100 1 = true := by
    simp only [routerDstIsGood, routerDstIsGoodBase, hx, hf]
    decide +kernel
  have hctx : routerUpdateCtx (plainRound maxConn) 100 r = { r with ctx := ⟨glbDblEpsilon, 1, 100⟩ } := by
    simp [routerUpdateCtx, routerMinWeight, Router.top, ht, hretry]
  have hround : routerChooseDstRound (plainRound maxConn) (chooseAt 100) { r with ctx := ⟨glbDblEpsilon, 1, 100⟩ } =
      ({ r with ctx := ⟨glbDblEpsilon, 1, 100⟩ }, some 0) := by
    simp [routerChooseDstRound, roundLoop, hd, hn, hgood, Router.checkAt, routerDstCheck, plainRound]
  let r1 : Router := { r with ctx := ⟨glbDblEpsilon, 1, 100⟩ }
  have hdst : (r1.count 0 1).dst =
      [{ x with conns := x.conns + 1, usage := routerDstUsage { x with conns := x.conns + 1 } }] := by
    simp [Router.count, r1, hd]
  have hchoose : routerChooseDst (plainRound maxConn) (chooseAt 100) r hint = (r1.count 0 1, some 0) := by
    unfold routerChooseDst
    have hpolicy : routerPolicy (plainRound maxConn) (chooseAt 100) (routerExpireTop (plainRound maxConn) r1) hint =
        (r1, some 0) := hround
    rw [show (chooseAt 100).now = 100 from rfl, hctx]
    dsimp only
    rw [hpolicy]
  refine ⟨r1.count 0 1, _, ?_, rfl, hdst, hx, hf, hn, ht⟩
  unfold glbRouterChooseDst
  rw [hchoose]
  simp [Router.addrAt, hdst, hx]

/-- One more client is accepted, handed to the pool and given a server's socket. -/
def serveOps (n : Nat) : List DaemonOp :=
  [.accept (7 + 2 * n) clientAddr (-1) (chooseAt 100), .addConn true true,
    .ctl 0 ⟨.socket (8 + 2 * n) EINPROGRESS, 100, fun _ => serverB⟩]

/-- The state before the pool takes the connection out of its pipe. -/
structure Queued (build : Build) (n : Nat) (d : Daemon) : Prop where
  orderly : TablesOrderly build d
  idle : d.listener = .idle
  pool : ∃ p b, d.pools = [p] ∧ p.pipe = [.addConn b] ∧ p.shutdown = false ∧
    d.heap b = some (newConn (7 + 2 * n) clientAddr (-1) serverA false)
  files : ∀ fd : Int, d.isOpen fd = true ↔ 0 ≤ fd ∧ fd < 8 + 2 * n
  conns : d.router.conns = n + 1
  dst : ∃ x, d.router.dst = [x] ∧ x.dst = ⟨serverA, 1⟩ ∧ x.failed = 0
  next : d.router.rrbNext = 0
  top : d.router.topDst = none

theorem opened_files {f : Fd → Bool} {m : Int} (hf : ∀ fd : Int, f fd = true ↔ 0 ≤ fd ∧ fd < m) (hm : 0 ≤ m)
    (fd : Int) : update f m true fd = true ↔ 0 ≤ fd ∧ fd < m + 1 := by
  by_cases he : fd = m
  · subst he
    simp [hm]
  · rw [update_of_ne he, hf]
    omega

theorem lowest_free {f : Fd → Bool} {m : Int} (hf : ∀ fd : Int, f fd = true ↔ 0 ≤ fd ∧ fd < m) (hm : 0 ≤ m) :
    LowestFree f m := by
  refine ⟨hm, ?_, fun x h0 hx => (hf x).mpr ⟨h0, hx⟩⟩
  rw [← Bool.not_eq_true, hf]
  omega

/-- The listener's part. -/
theorem serve_queued {maxConn : Int} (S : Serving build n d) (hn : n < maxConn) (ctrl : Ctrl) :
    ∃ d1 d2, daemonStep build (plainRound maxConn) ctrl d (.accept (7 + 2 * n) clientAddr (-1) (chooseAt 100)) = some d1 ∧
      daemonStep build (plainRound maxConn) ctrl d1 (.addConn true true) = some d2 ∧ Queued build n d2 := by
  obtain ⟨p, hp, hpipe, hshut, _⟩ := S.pool
  obtain ⟨x, hx, hxd, hxf⟩ := S.dst
  obtain ⟨r, y, hr, hconns, hy, hyd, hyf, hnext, htop⟩ :=
    round_one maxConn (connectHint (plainRound maxConn) clientAddr) hx hxd hxf S.next S.top
  have hfree := (lowest_free S.files (by omega)).2.1
  have hpos : (0 : Int) < 7 + 2 * n := by omega
  have hfresh : d.fresh (7 + 2 * n) = true := fresh_iff.mpr ⟨hpos, hfree⟩
  let d1 : Daemon :=
    { d.opened (7 + 2 * n) with router := r, listener := .chosen (7 + 2 * n) clientAddr (-1) serverA false }
  have h1 : daemonStep build (plainRound maxConn) ctrl d (.accept (7 + 2 * n) clientAddr (-1) (chooseAt 100)) =
      some d1 := by
    change listenerAccept (plainRound maxConn) d _ _ _ _ = _
    unfold listenerAccept
    rw [if_neg (by simp [S.idle, hfresh])]
    dsimp only
    rw [if_neg (by change ¬ d.router.conns ≥ maxConn; rw [S.conns]; omega),
      if_pos (show (!(plainRound maxConn).synchronous) = true from rfl),
      show glbRouterChooseDst (plainRound maxConn) (chooseAt 100) (d.opened (7 + 2 * n)).router _ = _ from hr]
  let d2 : Daemon :=
    enqueued (allocated d1 (newConn (7 + 2 * n) clientAddr (-1) serverA false)) (poolGetPool d1.pools) d1.nextBlock
  have h2 : daemonStep build (plainRound maxConn) ctrl d1 (.addConn true true) = some d2 := rfl
  refine ⟨d1, d2, h1, h2, tables_orderly_step (tables_orderly_step S.orderly h1) h2, rfl, ?_, ?_, ?_, ⟨y, hy, hyd, hyf⟩,
    hnext, htop⟩
  · refine ⟨{ p with pipe := [.addConn d.nextBlock] }, d.nextBlock, ?_, rfl, hshut, update_self _ _ _⟩
    change d.pools.modify (poolGetPool d.pools) (fun p => { p with pipe := p.pipe ++ [.addConn d.nextBlock] }) = _
    rw [hp]
    simp [poolGetPool, getPoolLoop, hpipe]
  · intro fd
    have hopen := opened_files S.files (by omega) fd
    rw [show (7 + 2 * (n : Int) + 1) = 8 + 2 * n by omega] at hopen
    exact hopen
  · change r.conns = n + 1
    rw [hconns, S.conns]

/-- The pool's part. -/
theorem serve_attached (maxConn : Int) (Q : Queued build n d) (ctrl : Ctrl) :
    ∃ d', daemonStep build (plainRound maxConn) ctrl d
        (.ctl 0 ⟨.socket (8 + 2 * n) EINPROGRESS, 100, fun _ => serverB⟩) = some d' ∧
      Serving build (n + 1) d' := by
  obtain ⟨p, b, hp, hpipe, hshut, hheap⟩ := Q.pool
  obtain ⟨⟨claim, home, L⟩, ht⟩ := Q.orderly
  have hget : d.pools[0]? = some p := by simp [hp]
  obtain ⟨T, _⟩ := ht 0 p hget
  obtain ⟨c, hs⟩ := ledger_spare (w := d.world p) ((view_world hget).symm ▸ L) hshut hpipe
  obtain rfl : c = newConn (7 + 2 * n) clientAddr (-1) serverA false :=
    Option.some.inj (hs.block.symm.trans hheap)
  have hs' : Spare (fetched (d.world p) []) b (newConn (7 + 2 * n) clientAddr (-1) serverA false) :=
    ⟨hs.block, hs.kinds, hs.unled, hs.inc, hs.dst, hs.fresh⟩
  have T' : Tabled build (fetched (d.world p) []) := T.frame rfl rfl rfl rfl
  have hfree := (lowest_free Q.files (by omega)).2.1
  have hpos : (0 : Int) < 8 + 2 * n := by omega
  obtain ⟨w', hw, hbare⟩ := add_conn_attached T' hs' (Int.negSucc_lt_zero 0) (plainRound maxConn) hpos hfree 100
  have hctl : poolHandleCtl build (plainRound maxConn) { d.world p with pipe := [] } (.addConn b)
      ⟨.socket (8 + 2 * n) EINPROGRESS, 100, fun _ => serverB⟩ = some (w', glbZeroStats) := by
    change (poolHandleAddConn build (plainRound maxConn) (fetched (d.world p) []) b _ _).bind _ = _
    rw [hw]
    rfl
  have hstep : daemonStep build (plainRound maxConn) ctrl d
      (.ctl 0 ⟨.socket (8 + 2 * n) EINPROGRESS, 100, fun _ => serverB⟩) = some (d.put 0 w') := by
    unfold daemonStep Daemon.onPool poolReadCtl
    dsimp only
    rw [hget]
    dsimp only
    rw [if_neg (by simp [hshut]), show (d.world p).pipe = [.addConn b] from hpipe]
    dsimp only
    rw [hctl]
    rfl
  have hmap : w'.routeMap = (attached (opened (fetched (d.world p) []) (8 + 2 * n)) b
      (onSock (newConn (7 + 2 * n) clientAddr (-1) serverA false) (8 + 2 * n))).routeMap :=
    congrArg (fun w => w.routeMap) hbare
  have hopen : w'.isOpen = update d.isOpen (8 + 2 * n) true := congrArg (fun w => w.isOpen) hbare
  have hrouter : w'.router = d.router := congrArg (fun w => w.router) hbare
  refine ⟨_, hstep, tables_orderly_step Q.orderly hstep, Q.idle, ?_, ?_, ?_, ?_, ?_, ?_⟩
  · refine ⟨w'.toPool, ?_, congrArg (fun w => w.pipe) hbare, (congrArg (fun w => w.shutdown) hbare).trans hshut,
      fun _ => ?_⟩
    · change d.pools.set 0 w'.toPool = _
      rw [hp]
      rfl
    · have hfd : (6 + 2 * (n + 1 : Nat) : Int) = 8 + 2 * n := by omega
      change w'.routeMap _ ≠ none
      rw [hfd, hmap]
      simp [attached, route, onSock]
  · intro fd
    change w'.isOpen fd = true ↔ _
    rw [hopen, opened_files Q.files (by omega)]
    push_cast
    omega
  · change w'.router.conns = _
    rw [hrouter, Q.conns]
    push_cast
    rfl
  · change ∃ x, w'.router.dst = [x] ∧ _
    rw [hrouter]
    exact Q.dst
  · exact (congrArg Router.rrbNext hrouter).trans Q.next
  · exact (congrArg Router.topDst hrouter).trans Q.top

theorem serve_step (maxConn : Int) (S : Serving build n d) (hn : n < maxConn) (ctrl : Ctrl) :
    ∃ d', exec (daemonStep build (plainRound maxConn) ctrl) d (serveOps n) = some d' ∧
      Along (daemonStep build (plainRound maxConn) ctrl) (Lowest (plainRound maxConn)) d (serveOps n) ∧
      Serving build (n + 1) d' := by
  obtain ⟨d1, d2, h1, h2, Q⟩ := serve_queued S hn ctrl
  obtain ⟨d3, h3, S'⟩ := serve_attached maxConn Q ctrl
  refine ⟨d3, ?_, ?_, S'⟩
  · rw [serveOps, exec_cons, h1, Option.bind_some, exec_cons, h2, Option.bind_some]
    exact exec_one h3
  · refine ⟨⟨lowest_free S.files (by omega), fun hsync => by cases hsync⟩, fun t ht => ?_⟩
    obtain rfl : d1 = t := Option.some.inj (h1.symm.trans ht)
    refine ⟨trivial, fun t ht => ⟨?_, fun _ _ => trivial⟩⟩
    obtain rfl : d2 = t := Option.some.inj (h2.symm.trans ht)
    intro fd error he
    obtain ⟨rfl, _⟩ := AsyncOut.socket.inj he
    exact lowest_free Q.files (by omega)

theorem serving_start (build : Build) (maxConn : Int) :
    ∃ d, exec (daemonStep build (plainRound maxConn) noWdog) startup [addServer serverA] = some d ∧ Serving build 0 d := by
  have hrun : exec (daemonStep build (plainRound maxConn) noWdog) startup [addServer serverA] = some _ := rfl
  refine ⟨_, hrun, ?_, rfl, ⟨_, rfl, rfl, rfl, fun h => absurd h (Nat.lt_irrefl 0)⟩, ?_, rfl,
    ⟨_, rfl, rfl, rfl⟩, rfl, rfl⟩
  · exact exec_invariant (fun _ _ _ => tables_orderly_step) (tables_orderly_init build (by simp) (by decide) _) hrun
  · intro fd
    change decide _ = true ↔ _
    simp

/-- Any number of clients that the limit admits can be served at once. -/
theorem serves (build : Build) (maxConn : Int) (n : Nat) (hn : n ≤ maxConn) :
    ∃ ops d, exec (daemonStep build (plainRound maxConn) noWdog) startup ops = some d ∧
      Along (daemonStep build (plainRound maxConn) noWdog) (Lowest (plainRound maxConn)) startup ops ∧
      Serving build n d := by
  induction n with
  | zero =>
    obtain ⟨d, hd, S⟩ := serving_start build maxConn
    exact ⟨_, d, hd, ⟨trivial, fun _ _ => trivial⟩, S⟩
  | succ n ih =>
    obtain ⟨ops, d, hd, ha, S⟩ := ih (by omega)
    obtain ⟨d', hd', ha', S'⟩ := serve_step maxConn S (by omega) noWdog
    refine ⟨ops ++ serveOps n, d', ?_, ?_, S'⟩
    · rw [exec_append, hd]
      exact hd'
    · rw [along_append]
      exact ⟨ha, fun t ht => Option.some.inj (hd.symm.trans ht) ▸ ha'⟩

/-- With 32765 clients a server's socket is the one behind the map. -/
theorem serves_past (build : Build) {maxConn : Int} (hm : 32765 ≤ maxConn) (hl : poolMaxFd < limit) :
    ∃ ops d, exec (daemonStep build (plainRound maxConn) noWdog) startup ops = some d ∧
      Along (daemonStep build (plainRound maxConn) noWdog) (Lowest (plainRound maxConn)) startup ops ∧
      Below limit d ∧ d.router.conns ≤ maxConn ∧ ¬ Mapped d := by
  have hmax : poolMaxFd = 65536 := rfl
  obtain ⟨ops, d, hd, ha, S⟩ := serves build maxConn 32765 hm
  refine ⟨ops, d, hd, ha, ?_, ?_, ?_⟩
  · intro fd hfd
    have := (S.files fd).mp hfd
    omega
  · rw [S.conns]
    exact hm
  · intro hmapped
    obtain ⟨p, hp, _, _, hlast⟩ := S.pool
    have := (hmapped p (by simp [hp]) _ (hlast (by omega))).2
    omega

end serve

/-- No index leaves `route_map` in any state in which the open files limit does not
exceed its size. A larger one is exceeded by 32765 connections, if they are admitted,
on the lowest descriptors there are. -/
theorem route_map_bounds (build : Build) (limit : Nat) :
    (limit ≤ poolMaxFd → ∀ cnf ctrl pipes used router ops d, pipes.Nodup →
      (∀ fd ∈ pipes, 0 < fd ∧ used fd = true) →
      exec (daemonStep build cnf ctrl) (Daemon.init pipes used router) ops = some d → Below limit d → Mapped d) ∧
    (poolMaxFd < limit → ∀ maxConn : Int, 32765 ≤ maxConn →
      ∃ ops d, exec (daemonStep build (plainRound maxConn) noWdog) startup ops = some d ∧
        Along (daemonStep build (plainRound maxConn) noWdog) (Lowest (plainRound maxConn)) startup ops ∧
        Below limit d ∧ d.router.conns ≤ maxConn ∧ ¬ Mapped d) := by
  refine ⟨?_, fun hl maxConn hm => serves_past build hm hl⟩
  intro hl cnf ctrl pipes used router ops d hn hu hd hb
  have hr := exec_invariant (fun _ _ _ => registered_step) (registered_init hn hu router) hd
  exact mapped_below hr hb hl

/-- Ten clients under the usual limit. -/
theorem route_map_bounds_ten_clients :
    ∃ ops d, exec (daemonStep .epoll (plainRound 100) noWdog) startup ops = some d ∧ d.router.conns = 10 ∧
      Below 1024 d ∧ Mapped d := by
  obtain ⟨ops, d, hd, _, S⟩ := serves .epoll 100 10 (by decide)
  have hb : Below 1024 d := by
    intro fd hfd
    have := (S.files fd).mp hfd
    omega
  exact ⟨ops, d, hd, S.conns, hb,
    (route_map_bounds .epoll 1024).1 (by decide) _ _ _ _ _ _ _ (by simp) (by decide) hd hb⟩

/-- Under a limit of 200000 files glbd admits 99981 connections by default, which is
enough. -/
theorem served_past_map :
    glbGetConnLimit ⟨200000, 200000⟩ = 99981 ∧
      ∃ ops d, exec (daemonStep .epoll (plainRound 99981) noWdog) startup ops = some d ∧
        Along (daemonStep .epoll (plainRound 99981) noWdog) (Lowest (plainRound 99981)) startup ops ∧
        Below 200000 d ∧ d.router.conns ≤ 99981 ∧ ¬ Mapped d :=
  ⟨by decide, serves_past .epoll (by decide) (by decide)⟩

end Glb.Proofs.RouteMap
