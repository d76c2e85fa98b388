import Glb.Proofs.Blocks
import Glb.Proofs.FdSteps
import Mathlib.Data.List.Nodup

namespace Glb.Proofs.Descriptors
open Function Lib.Run PoolFrame PoolEvents DaemonSteps Ownership DaemonLedger Registry Blocks FdTable FdSteps
open RouterRun

variable {build : Build} {cnf : Cnf} {ctrl : Ctrl} {d d' : Daemon} {w w' w1 w2 : World} {v : View}
variable {claim : Owner → Option Fd} {home : Nat → Option Home} {i b : Nat} {c : Conn} {s : Side}

section sizes

theorem fds_del_len (h : poolFdsDel build w p = some w') :
    w'.fdset.pollfdsLen = w.fdset.pollfdsLen := by
  obtain ⟨s, rfl, hs⟩ := fds_del_eq h
  exact hs

theorem reset_len (h : poolResetConnEnd build w p cl = some w') :
    w'.fdset.pollfdsLen = w.fdset.pollfdsLen := by
  unfold poolResetConnEnd at h
  simp only [Option.bind_eq_bind, Option.bind_eq_some_iff, Option.some.injEq] at h
  obtain ⟨w1, h1, e, _, rfl⟩ := h
  have hlen := fds_del_len h1
  cases cl <;> exact hlen

theorem remove_len (h : poolRemoveConn build cnf w fd notify = some w') :
    w'.fdset.pollfdsLen = w.fdset.pollfdsLen := by
  unfold poolRemoveConn at h
  simp only [Option.bind_eq_bind, Option.bind_eq_some_iff] at h
  obtain ⟨x, _, w1, h1, h⟩ := h
  have hlen1 := reset_len h1
  split at h
  · simp only [Option.bind_eq_some_iff, Option.some.injEq] at h
    obtain ⟨w2, h2, e, _, rfl⟩ := h
    have hlen2 := (reset_len h2).trans hlen1
    cases notify <;> exact hlen2
  · exact (reset_len h).trans hlen1

/-- Two slots for each connection and one for the pipe, all inside the array. -/
structure Sized (w : World) : Prop where
  size : ((connFds w).length : Int) = 2 * w.nConns
  room : w.fdset.fdMax ≤ w.fdset.pollfdsLen

theorem fd_max_marks (w : World) : w.fdset.fdMax = (marks w).length := by
  simp [FdSet.fdMax, marks]

theorem Sized.masked (S : Sized w) (hm : Masked w w') : Sized w' := by
  refine ⟨?_, ?_⟩
  · rw [marks_conn_fds hm.marks, hm.conns]
    exact S.size
  · rw [fd_max_marks, hm.marks, ← fd_max_marks, hm.len]
    exact S.room

theorem Tabled.fd_max (T : Tabled build w) : w.fdset.fdMax = (connFds w).length + 1 := by
  simpa [FdSet.fdMax] using congrArg List.length T.slots

theorem Sized.removed (S : Sized w) (T : Tabled build w) (hh : Held w b c)
    (h : poolRemoveConn build cnf w (side c s).sock notify = some w') : Tabled build w' ∧ Sized w' := by
  obtain ⟨w1, h1, T1, hperm⟩ := remove_tabled cnf T hh s notify
  have hw : w1 = w' := Option.some.inj (h1.symm.trans h)
  subst hw
  have hlen : (connFds w).length = (connFds w1).length + 2 := by
    simpa using hperm.length_eq
  have hbare := remove_spec hh (T.kinds (held_routed hh s)) s h
  have hconns : w1.nConns = w.nConns - 1 := by
    have := congrArg (fun w => w.nConns) hbare
    split at this <;> cases notify <;> exact this
  have hsize := S.size
  refine ⟨T1, by omega, ?_⟩
  have hroom := S.room
  rw [remove_len h]
  rw [Tabled.fd_max T] at hroom
  rw [Tabled.fd_max T1]
  omega

theorem Sized.grown (S : Sized w) (T : Tabled build w) (hg : Grown w w' x y) : Sized w' := by
  have hconn : connFds w' = connFds w ++ [x, y] := by
    unfold connFds
    rw [← marks_fds, hg.marks, List.map_append, marks_fds, T.slots]
    rfl
  refine ⟨?_, hg.room S.room⟩
  have hsize := S.size
  rw [hconn, hg.conns, List.length_append]
  simp only [List.length_cons, List.length_nil]
  push_cast
  omega

theorem Sized.cleared (S : Sized w) (h : Cleared build cnf w w' b c) : Sized w' := by
  obtain ⟨w1, c1, s, notify, w2, k, hh, hr, hm⟩ := h.steps
  exact ((S.masked k.masked).removed k.tabled hh hr).2.masked hm

theorem Sized.slots (S : Sized w) (h : Slots build cnf w b c w') : Tabled build w' ∧ Sized w' := by
  cases h with
  | kept k => exact ⟨k.tabled, S.masked k.masked⟩
  | cleared h => exact ⟨h.tabled, S.cleared h⟩
  | moved h T hg => exact ⟨T, (S.cleared h).grown h.tabled hg⟩

end sizes

section pool

/-- What the register says about the descriptors of a pool that runs. -/
theorem ledger_live (L : Ledger (seen v i w) claim home) (hs : w.shutdown = false) : Live w := by
  refine ⟨?_, fun {fd} hr => ?_⟩
  · have hp : (seen v i w).pipe i = some w.ctlRecv := by simp [seen, ctlFd, hs]
    exact L.sound.live (L.pipes hp)
  · obtain ⟨q, hq⟩ := Option.ne_none_iff_exists'.mp hr
    obtain ⟨b, c, s, hb, hh, _, rfl⟩ := served L hq
    exact L.sound.live (L.claims hb hh.block s)

/-- The block that a pool takes from its pipe can be registered. -/
theorem ledger_spare (L : Ledger (seen v i w) claim home) (hs : w.shutdown = false)
    (hp : w.pipe = .addConn b :: q) : ∃ c, Spare w b c := by
  obtain ⟨hb, _⟩ := ledger_popped L hp
  obtain ⟨c, hc, hk, hi, hd⟩ := L.block hb
  have hl := ledger_live L hs
  have hpipe : claim (.pipe i) = some w.ctlRecv := L.pipes (by simp [seen, ctlFd, hs])
  have hfree : ∀ {o fd}, claim o = some fd → (∀ b' s, home b' = some (.held i) → o ≠ .conn b' s) →
      w.routeMap fd = none := by
    intro o fd ho hne
    by_contra hr
    obtain ⟨p, hp⟩ := Option.ne_none_iff_exists'.mp hr
    obtain ⟨b', c', s, hb', hh, _, rfl⟩ := served L hp
    exact hne b' s hb' (L.sound.inj ho (L.claims hb' hh.block s))
  have hqueued : ∀ t b' s, home b' = some (.held i) → Owner.conn b t ≠ .conn b' s := by
    intro t b' s hb' he
    simp only [Owner.conn.injEq] at he
    rw [← he.1, hb] at hb'
    cases hb'
  refine ⟨c, hc, hk, ?_, ⟨hfree hi (hqueued .inc), L.sound.ne hi hpipe (by simp)⟩, ?_, ?_⟩
  · intro fd p hr hblock
    obtain ⟨b', c', s, hb', hh, _, rfl⟩ := served L hr
    have hptr : p = ptr b' s.other := Option.some.inj (hr.symm.trans (hh.route s))
    rw [hptr, ptr_block] at hblock
    rw [hblock, hb] at hb'
    cases hb'
  · intro h0
    exact ⟨hfree (hd h0) (hqueued .dst), L.sound.ne (hd h0) hpipe (by simp),
      L.sound.ne (hd h0) hi (by simp)⟩
  · intro fd hf
    have hun : ∀ {o fd'}, claim o = some fd' → fd ≠ fd' := by
      rintro o fd' ho rfl
      exact L.sound.unclaimed hf o ho
    refine ⟨?_, hun hpipe, hun hi⟩
    by_contra hr
    have hopen := hl.routed hr
    rw [show w.isOpen fd = false from hf] at hopen
    cases hopen

theorem scan_sized (hb : Booked v i w) (T : Tabled build w) (S : Sized w)
    (h : scanLoop build cnf hit n fd count w = some w') : Tabled build w' ∧ Sized w' := by
  refine scan_keeps (fun w => Booked v i w ∧ Tabled build w ∧ Sized w)
    (fun w w' => Tabled build w ∧ Sized w → Tabled build w' ∧ Sized w') (fun w => id) ?_ ⟨hb, T, S⟩ h ⟨T, S⟩
  intro w w1 fd p hw hp h1
  obtain ⟨hb, T, S⟩ := hw
  obtain ⟨b, c, s, hh, _, hfd, hb1, _⟩ := removed_cases hb hp h1
  rw [hfd] at h1
  obtain ⟨T1, S1⟩ := S.removed T hh h1
  exact ⟨⟨hb1, T1, S1⟩, fun w' hw' _ => hw' ⟨T1, S1⟩⟩

theorem read_sized (L : Ledger (seen v i w) claim home) (T : Tabled build w) (S : Sized w)
    (h : (poolHandleRead build cnf w fd recv send).map Prod.fst = some w') :
    Tabled build w' ∧ Sized w' := by
  obtain ⟨⟨w1, ret⟩, h1, rfl⟩ := Option.map_eq_some_iff.mp h
  obtain ⟨p, hp⟩ := read_routed h1
  obtain ⟨b, c, s, _, hh, hk, rfl⟩ := served L hp
  obtain ⟨w2, ret2, h2, hcase⟩ := read_slots cnf T hh hk s.other recv send
  rw [other_other, h1, Option.some.injEq, Prod.mk.injEq] at h2
  obtain ⟨rfl, rfl⟩ := h2
  rcases hcase with k | ⟨_, hc⟩
  · exact ⟨k.tabled, S.masked k.masked⟩
  · exact ⟨hc.tabled, S.cleared hc⟩

theorem write_sized (L : Ledger (seen v i w) claim home) (hs : w.shutdown = false)
    (T : Tabled build w) (S : Sized w) (h : poolHandleWrite build cnf w fd env send = some w') :
    Tabled build w' ∧ Sized w' := by
  obtain ⟨p, hp⟩ := write_routed h
  obtain ⟨b, c, s, _, hh, hk, rfl⟩ := served L hp
  exact S.slots (write_slots T (ledger_live L hs) hh hk s h)

theorem ctl_sized (L : Ledger (seen v i w) claim home) (hs : w.shutdown = false)
    (T : Tabled build w) (S : Sized w) (h : poolReadCtl build cnf w env = some w') :
    Tabled build w' ∧ Sized w' := by
  -- the pipe and the counters are not part of the table
  have T0 : ∀ q, Tabled build (fetched w q) := fun q => T.frame rfl rfl rfl rfl
  have S0 : ∀ q, Sized (fetched w q) := fun q => ⟨S.size, S.room⟩
  obtain ⟨st, hread⟩ := ctl_cases h
  cases hread with
  | @addConn b q u hp h2 =>
    obtain ⟨c, hsp⟩ := ledger_spare L hs hp
    have hsp0 : Spare (fetched w q) b c := ⟨hsp.block, hsp.kinds, hsp.unled, hsp.inc, hsp.dst, hsp.fresh⟩
    obtain ⟨T2, hm | ⟨fd, hg⟩⟩ := add_conn_slots (T0 q) hsp0 h2
    · exact ⟨T2, (S0 q).masked hm⟩
    · exact ⟨T2, (S0 q).grown (T0 q) hg⟩
  | dropDst hp h2 => exact scan_sized (booked_fetched L hp (by simp)) (T0 _) (S0 _) h2
  | stats hp => exact ⟨T.frame rfl rfl rfl rfl, S.size, S.room⟩
  | shutdown hp h3 =>
    obtain ⟨T3, S3⟩ := scan_sized (booked_fetched L hp (by simp)) (T0 _) (S0 _) h3
    exact ⟨T3.frame rfl rfl rfl rfl, S3.size, S3.room⟩

end pool

section daemon

/-- The tables of every pool are in order. -/
def TablesOrderly (build : Build) (d : Daemon) : Prop :=
  Registered d ∧ ∀ (i : Nat) p, d.pools[i]? = some p → Tabled build (d.world p) ∧ Sized (d.world p)

theorem routed_home (L : Ledger (view d) claim home) (hp : d.pools[i]? = some p)
    (hq : p.routeMap fd = some q) : home q.block = some (.held i) := by
  obtain ⟨b, c, s, hb, hh, _, rfl⟩ := served (pool_ledger L hp) hq
  have hptr : q = ptr b s.other := Option.some.inj (hq.symm.trans (hh.route s))
  rw [hptr, ptr_block]
  exact hb

/-- A block that one pool leads to is not led to by another, nor in its pipe. -/
theorem pools_apart (L : Ledger (view d) claim home) (hp : d.pools[i]? = some p)
    (hp' : d.pools[j]? = some p') (hij : j ≠ i) (hq : p'.routeMap fd = some q) :
    (∀ {fd q'}, p.routeMap fd = some q' → q'.block ≠ q.block) ∧ q.block ∉ adds p.pipe := by
  have hj := routed_home L hp' hq
  refine ⟨?_, ?_⟩
  · intro fd' q' hq' he
    have hi := routed_home L hp hq'
    rw [he, hj] at hi
    simp only [Option.some.injEq, Home.held.injEq] at hi
    exact hij hi
  · intro hm
    have hqueue : q.block ∈ (view d).queue i := by simpa [view, hp] using hm
    have hi := L.queued.mp hqueue
    rw [hj] at hi
    cases hi

/-- A step of one pool leaves the blocks that another leads to. -/
theorem apart_heap (L : Ledger (view d) claim home) (hp : d.pools[i]? = some p)
    (hp' : d.pools[j]? = some p') (hij : j ≠ i) (hq : p'.routeMap fd = some q)
    (hf : Fate cnf i (d.world p) op u) (hb : bare w' = bare u) : w'.heap q.block = d.heap q.block := by
  obtain ⟨hled, hpipe⟩ := pools_apart L hp hp' hij hq
  have hheap : w'.heap = u.heap := congrArg (fun w => w.heap) hb
  have hother : u.heap q.block = d.heap q.block := fate_other hf (by exact hled) (fun q => adds_popped hpipe q u.pipe)
  exact (congrFun hheap q.block).trans hother

theorem pool_orderly (L : Ledger (view d) claim home)
    (ht : ∀ (i : Nat) p, d.pools[i]? = some p → Tabled build (d.world p) ∧ Sized (d.world p))
    (hp : d.pools[i]? = some p) (hf : Fate cnf i (d.world p) op u) (hb : bare w' = bare u)
    (hw : Tabled build w' ∧ Sized w') (j : Nat) (p' : Pool)
    (hp' : (d.put i w').pools[j]? = some p') :
    Tabled build ((d.put i w').world p') ∧ Sized ((d.put i w').world p') := by
  have hget : (d.pools.set i w'.toPool)[j]? = some p' := hp'
  rw [List.getElem?_set] at hget
  split at hget
  · split at hget
    · simp only [Option.some.injEq] at hget
      subst hget
      exact hw
    · cases hget
  · rename_i hij
    obtain ⟨T, S⟩ := ht j p' hget
    refine ⟨T.congr ?_ rfl rfl rfl, S.size, S.room⟩
    intro fd q hq
    have hheap := apart_heap L hp hget (Ne.symm hij) hq hf hb
    exact hheap

/-- A step of a thread that is not a pool's. -/
structure Untouched (d d' : Daemon) : Prop where
  pools : ∀ {i : Nat} {p'}, d'.pools[i]? = some p' →
    ∃ p pipe, d.pools[i]? = some p ∧ p' = { p with pipe := pipe }
  blocks : ∀ {b}, b < d.nextBlock → d'.heap b = d.heap b

theorem Untouched.same (hp : d'.pools = d.pools) (hh : d'.heap = d.heap) : Untouched d d' :=
  ⟨fun {_ p'} h => ⟨p', p'.pipe, hp ▸ h, rfl⟩, fun _ => by rw [hh]⟩

theorem Untouched.signalled (hs : Signalled d d') (hh : d'.heap = d.heap) : Untouched d d' := by
  obtain ⟨ctls, _, hp⟩ := hs
  refine ⟨fun {i p'} h => ?_, fun _ => by rw [hh]⟩
  rw [hp, List.getElem?_map] at h
  obtain ⟨p, hp, rfl⟩ := Option.map_eq_some_iff.mp h
  exact ⟨p, _, hp, rfl⟩

theorem Untouched.alloc (hp : d'.pools = d.pools)
    (hh : d'.heap = update d.heap d.nextBlock (some c)) : Untouched d d' := by
  refine ⟨fun {_ p'} h => ⟨p', p'.pipe, hp ▸ h, rfl⟩, fun hb => ?_⟩
  rw [hh, update_of_ne (Nat.ne_of_lt hb)]

theorem add_untouched (h : AddFate cnf d inc addr sock dst complete d') : Untouched d d' := by
  cases h with
  | noMemory => exact .same rfl rfl
  | unsent => exact .alloc rfl rfl
  | queued =>
    refine ⟨fun {j p'} h => ?_, fun hb => update_of_ne (Nat.ne_of_lt hb) _ _⟩
    simp only [enqueued, allocated, List.getElem?_modify, Option.map_eq_map,
      Option.map_eq_some_iff] at h
    obtain ⟨p, hp, rfl⟩ := h
    split
    · exact ⟨p, _, hp, rfl⟩
    · exact ⟨p, p.pipe, hp, rfl⟩

theorem Untouched.routed (hu : Untouched d d') (L : Ledger (view d) claim home)
    (hp : d.pools[i]? = some p) (hq : p.routeMap fd = some q) : d'.heap q.block = d.heap q.block :=
  hu.blocks (L.home_below (routed_home L hp hq))

theorem untouched_orderly (L : Ledger (view d) claim home)
    (ht : ∀ (i : Nat) p, d.pools[i]? = some p → Tabled build (d.world p) ∧ Sized (d.world p))
    (hu : Untouched d d') (i : Nat) (p' : Pool) (hp' : d'.pools[i]? = some p') :
    Tabled build (d'.world p') ∧ Sized (d'.world p') := by
  obtain ⟨p, pipe, hp, rfl⟩ := hu.pools hp'
  obtain ⟨T, S⟩ := ht i p hp
  exact ⟨T.congr (hu.routed L hp) rfl rfl rfl, S.size, S.room⟩

/-- One step of the daemon keeps the tables of all pools in order. -/
theorem tables_orderly_step (hd : TablesOrderly build d) (h : daemonStep build cnf ctrl d op = some d') :
    TablesOrderly build d' := by
  refine ⟨registered_step hd.1 h, ?_⟩
  obtain ⟨⟨claim, home, L⟩, ht⟩ := hd
  cases op with
  | accept fd addr sock env =>
    obtain ⟨_, _, _, hf⟩ := accept_cases h
    have hu : Untouched d d' := by cases hf <;> exact .same rfl rfl
    exact untouched_orderly L ht hu
  | connected error now env =>
    obtain ⟨_, _, _, _, _, _, hf⟩ := connected_cases h
    have hu : Untouched d d' := by cases hf <;> exact .same rfl rfl
    exact untouched_orderly L ht hu
  | addConn malloc write =>
    obtain ⟨_, _, _, _, _, _, hf⟩ := add_cases h
    exact untouched_orderly L ht (add_untouched hf)
  | ctl i env =>
    have hon : d.onPool i (fun w => poolReadCtl build cnf w env) = some d' := h
    obtain ⟨p, w', hp, hs, hw, rfl⟩ := on_pool hon
    obtain ⟨T, S⟩ := ht i p hp
    have L' := pool_ledger L hp
    obtain ⟨u, hf, hb⟩ := ctl_fate L' hw
    exact pool_orderly L ht hp hf hb (ctl_sized L' hs T S hw)
  | read i fd recv send =>
    have hon : d.onPool i (fun w => (poolHandleRead build cnf w fd recv send).map Prod.fst) =
      some d' := h
    obtain ⟨p, w', hp, hs, hw, rfl⟩ := on_pool hon
    obtain ⟨T, S⟩ := ht i p hp
    have L' := pool_ledger L hp
    obtain ⟨u, hf, hb⟩ := read_fate L' hw
    exact pool_orderly L ht hp hf hb (read_sized L' T S hw)
  | write i fd env send =>
    have hon : d.onPool i (fun w => poolHandleWrite build cnf w fd env send) = some d' := h
    obtain ⟨p, w', hp, hs, hw, rfl⟩ := on_pool hon
    obtain ⟨T, S⟩ := ht i p hp
    have L' := pool_ledger L hp
    obtain ⟨u, hf, hb⟩ := write_fate L' hw
    exact pool_orderly L ht hp hf hb (write_sized L' hs T S hw)
  | request req env =>
    obtain ⟨hs, hh, _⟩ := request_frame h
    exact untouched_orderly L ht (.signalled hs hh)
  | drop dst =>
    simp only [daemonStep, Option.some.injEq] at h
    exact untouched_orderly L ht (h ▸ .signalled (bcast_signalled _ (by simp)) rfl)
  | destroy =>
    simp only [daemonStep, Option.some.injEq] at h
    exact untouched_orderly L ht (h ▸ .signalled (bcast_signalled _ (by simp)) rfl)

theorem tables_orderly_init (build : Build) (hn : pipes.Nodup) (hu : ∀ fd ∈ pipes, 0 < fd ∧ used fd = true)
    (router : Router) : TablesOrderly build (Daemon.init pipes used router) := by
  refine ⟨registered_init hn hu router, ?_⟩
  intro i p hp
  have hget : pipes[i]?.map Pool.init = some p := by simpa [Daemon.init] using hp
  obtain ⟨fd, _, rfl⟩ := Option.map_eq_some_iff.mp hget
  refine ⟨⟨?_, rfl, by simp [connFds, Daemon.world, Pool.init], ?_, ?_⟩, rfl, ?_⟩
  · intro x q hq
    cases hq
  · intro x
    simp [connFds, Daemon.world, Pool.init]
  · intro _ b c s h
    cases h.2
  · simp [Daemon.world, Pool.init, FdSet.fdMax, fdSetsize]

end daemon

section connections

/-- The blocks that client descriptors lead to. -/
def servedBlocks (w : World) : List Nat :=
  (connFds w).filterMap fun fd => (w.routeMap fd).bind fun q =>
    if q = dstPtr q.block then some q.block else none

theorem served_block_iff (hp : Paired w) : (∃ fd, w.routeMap fd = some (dstPtr b)) ↔
    ∃ c, Held w b c := by
  constructor
  · rintro ⟨fd, hfd⟩
    obtain ⟨b', c, s, hh, rfl⟩ := hp fd _ hfd
    have hptr : ptr b' s.other = ptr b .dst := Option.some.inj ((hh.route s).symm.trans hfd)
    exact ⟨c, (ptr_inj hptr).1 ▸ hh⟩
  · rintro ⟨c, hh⟩
    exact ⟨c.inc.sock, hh.route .inc⟩

theorem served_mem (fd : Fd) : (b ∈ (w.routeMap fd).bind fun q =>
    if q = dstPtr q.block then some q.block else none) ↔ w.routeMap fd = some (dstPtr b) := by
  cases w.routeMap fd with
  | none => simp
  | some q =>
    simp only [Option.bind_some, Option.mem_def, Option.some.injEq]
    constructor
    · intro h
      split at h
      · rename_i hq
        rw [hq, Option.some.inj h]
      · cases h
    · rintro rfl
      exact if_pos rfl

theorem mem_served_blocks (T : Tabled build w) (hp : Paired w) :
    b ∈ servedBlocks w ↔ ∃ c, Held w b c := by
  unfold servedBlocks
  rw [List.mem_filterMap, ← served_block_iff hp]
  constructor
  · rintro ⟨fd, _, h⟩
    exact ⟨fd, (served_mem fd).mp h⟩
  · rintro ⟨fd, h⟩
    exact ⟨fd, T.mem.mpr (by rw [h]; simp), (served_mem fd).mpr h⟩

theorem served_blocks_nodup (T : Tabled build w) (hp : Paired w) : (servedBlocks w).Nodup := by
  refine List.Nodup.filterMap ?_ (List.nodup_cons.mp T.nodup).2
  intro fd fd' b h h'
  have hr := (served_mem fd).mp h
  have hr' := (served_mem fd').mp h'
  obtain ⟨b1, c1, s1, hh1, rfl⟩ := hp fd _ hr
  obtain ⟨b2, c2, s2, hh2, rfl⟩ := hp fd' _ hr'
  obtain ⟨rfl, ho1⟩ := ptr_inj (Option.some.inj ((hh1.route s1).symm.trans hr) : _ = ptr b .dst)
  obtain ⟨rfl, ho2⟩ := ptr_inj (Option.some.inj ((hh2.route s2).symm.trans hr') : _ = ptr b1 .dst)
  have hc : c1 = c2 := Option.some.inj (hh1.block.symm.trans hh2.block)
  rw [hc, other_inj (ho1.trans ho2.symm)]

/-- The two descriptors of the connection in a block. -/
def connSocks (w : World) (b : Nat) : List Fd :=
  ((w.heap b).map fun c => [c.inc.sock, c.dst.sock]).getD []

theorem mem_conn_socks (hc : w.heap b = some c) : fd ∈ connSocks w b ↔ ∃ s, fd = (side c s).sock := by
  simp only [connSocks, hc, Option.map_some, Option.getD_some, List.mem_cons, List.not_mem_nil, or_false]
  constructor
  · rintro (h | h)
    · exact ⟨.inc, h⟩
    · exact ⟨.dst, h⟩
  · rintro ⟨s, h⟩
    cases s with
    | inc => exact Or.inl h
    | dst => exact Or.inr h

theorem conn_fds_perm (T : Tabled build w) (hp : Paired w) :
    (connFds w).Perm ((servedBlocks w).flatMap (connSocks w)) := by
  have hmem : ∀ {b}, b ∈ servedBlocks w → ∃ c, Held w b c := (mem_served_blocks T hp).mp
  refine (List.perm_ext_iff_of_nodup (List.nodup_cons.mp T.nodup).2 ?_).mpr ?_
  · rw [List.nodup_flatMap]
    refine ⟨?_, (served_blocks_nodup T hp).imp_of_mem ?_⟩
    · intro b hb
      obtain ⟨c, hh⟩ := hmem hb
      simp [connSocks, hh.block, held_socks hh]
    · intro b b' hb hb' hne fd hfd hfd'
      obtain ⟨c, hh⟩ := hmem hb
      obtain ⟨c', hh'⟩ := hmem hb'
      obtain ⟨s, rfl⟩ := (mem_conn_socks hh.block).mp hfd
      obtain ⟨s', he⟩ := (mem_conn_socks hh'.block).mp hfd'
      exact hne ((held_routed hh s).unique (held_routed hh' s') he).1
  · intro fd
    rw [T.mem, List.mem_flatMap]
    constructor
    · intro hr
      obtain ⟨q, hq⟩ := Option.ne_none_iff_exists'.mp hr
      obtain ⟨b, c, s, hh, rfl⟩ := hp fd q hq
      exact ⟨b, (mem_served_blocks T hp).mpr ⟨c, hh⟩, (mem_conn_socks hh.block).mpr ⟨s, rfl⟩⟩
    · rintro ⟨b, hb, hfd⟩
      obtain ⟨c, hh⟩ := hmem hb
      obtain ⟨s, rfl⟩ := (mem_conn_socks hh.block).mp hfd
      rw [hh.route s]
      simp

theorem conn_fds_length (T : Tabled build w) (hp : Paired w) :
    (connFds w).length = 2 * (servedBlocks w).length := by
  have htwo : ∀ b ∈ servedBlocks w, (connSocks w b).length = 2 := by
    intro b hb
    obtain ⟨c, hh⟩ := (mem_served_blocks T hp).mp hb
    simp [connSocks, hh.block]
  rw [(conn_fds_perm T hp).length_eq, List.length_flatMap, List.map_congr_left htwo]
  simp [Nat.mul_comm]

/-- The descriptor table of a pool in the poll build. -/
structure DescriptorTable (w : World) : Prop where
  /-- `n_conns` blocks are served: both descriptors of each lead to the opposite end. -/
  conns : ∃ blocks : List Nat, blocks.Nodup ∧ (blocks.length : Int) = w.nConns ∧
    ∀ b, b ∈ blocks ↔ ∃ c, Held w b c
  kinds : ∀ {b c}, Held w b c → Kinds c
  only : ∀ {fd q}, w.routeMap fd = some q → ∃ b c s, Held w b c ∧ fd = (side c s).sock ∧ q = ptr b s.other
  size : (w.fdset.fdMax : Int) = 2 * w.nConns + 1
  room : w.fdset.fdMax ≤ w.fdset.pollfdsLen
  slot : ∀ {b c}, Held w b c → ∀ s, ∃ x, w.fdset.pollfds[w.fdset.fdsIdx (ptr b s)]? = some x ∧
    x.fd = (side c s).sock ∧ x.events = (side c s).events
  range : ∀ {b c}, Held w b c → ∀ s, 1 ≤ w.fdset.fdsIdx (ptr b s) ∧
    w.fdset.fdsIdx (ptr b s) < w.fdset.fdMax
  apart : ∀ {b c b' c' s s'}, Held w b c → Held w b' c' →
    w.fdset.fdsIdx (ptr b s) = w.fdset.fdsIdx (ptr b' s') → b = b' ∧ s = s'
  ctl : ∃ x, w.fdset.pollfds[0]? = some x ∧ x.fd = w.ctlRecv

theorem descriptor_table (T : Tabled .poll w) (hp : Paired w) (S : Sized w) : DescriptorTable w := by
  have hslot : ∀ {b c}, Held w b c → ∀ s, ∃ x, w.fdset.pollfds[w.fdset.fdsIdx (ptr b s)]? = some x ∧
      x.fd = (side c s).sock ∧ x.events = (side c s).events :=
    fun hh s => T.idx rfl (held_routed hh s)
  have hlen := conn_fds_length T hp
  have hsize := S.size
  refine ⟨⟨servedBlocks w, served_blocks_nodup T hp, by omega, fun b => mem_served_blocks T hp⟩,
    fun hh => T.kinds (held_routed hh .inc), ?_, ?_, S.room, hslot, ?_, ?_, T.slot_zero⟩
  · intro fd q hq
    obtain ⟨b, c, s, hh, rfl⟩ := hp fd q hq
    exact ⟨b, c, s, hh, rfl, Option.some.inj (hq.symm.trans (hh.route s))⟩
  · rw [Tabled.fd_max T]
    push_cast
    omega
  · intro b c hh s
    obtain ⟨x, hx, hfd, _⟩ := hslot hh s
    refine ⟨Nat.one_le_iff_ne_zero.mpr fun h0 => ?_, (List.getElem?_eq_some_iff.mp hx).1⟩
    obtain ⟨y, hy, hctl⟩ := T.slot_zero
    rw [h0, hy, Option.some.injEq] at hx
    exact T.not_ctl (held_routed hh s) (hfd.symm.trans (hx ▸ hctl))
  · intro b c b' c' s s' hh hh' he
    obtain ⟨x, hx, hfd, _⟩ := hslot hh s
    obtain ⟨x', hx', hfd', _⟩ := hslot hh' s'
    rw [he, hx', Option.some.injEq] at hx
    have hsock : (side c s).sock = (side c' s').sock := hfd.symm.trans (hx ▸ hfd')
    obtain ⟨hb, _, hs⟩ := (held_routed hh s).unique (held_routed hh' s') hsock
    exact ⟨hb, hs⟩

/-- The slots behind the first are those of the ends: there are as many of each. -/
theorem DescriptorTable.slot_end (D : DescriptorTable w) (hj : 1 ≤ j) (hlt : j < w.fdset.fdMax) :
    ∃ b c s, Held w b c ∧ w.fdset.fdsIdx (ptr b s) = j := by
  obtain ⟨blocks, hnd, hlen, hmem⟩ := D.conns
  let idxs := blocks.flatMap fun b => [w.fdset.fdsIdx (ptr b .inc), w.fdset.fdsIdx (ptr b .dst)]
  have hend : ∀ {x b}, x ∈ [w.fdset.fdsIdx (ptr b .inc), w.fdset.fdsIdx (ptr b .dst)] →
      ∃ s, w.fdset.fdsIdx (ptr b s) = x := by
    intro x b hx
    simp only [List.mem_cons, List.not_mem_nil, or_false] at hx
    rcases hx with rfl | rfl
    · exact ⟨.inc, rfl⟩
    · exact ⟨.dst, rfl⟩
  have hnodup : idxs.Nodup := by
    refine List.nodup_flatMap.mpr ⟨fun b hb => ?_, hnd.imp_of_mem fun {b b'} hb hb' hne x hx hx' => ?_⟩
    · obtain ⟨c, hh⟩ := (hmem b).mp hb
      have hne : w.fdset.fdsIdx (ptr b .inc) ≠ w.fdset.fdsIdx (ptr b .dst) := by
        intro he
        cases (D.apart hh hh he).2
      simp [hne]
    · obtain ⟨c, hh⟩ := (hmem b).mp hb
      obtain ⟨c', hh'⟩ := (hmem b').mp hb'
      obtain ⟨s, hs⟩ := hend hx
      obtain ⟨s', hs'⟩ := hend hx'
      exact hne (D.apart hh hh' (hs.trans hs'.symm)).1
  have hsub : idxs ⊆ List.range' 1 (w.fdset.fdMax - 1) := by
    intro x hx
    obtain ⟨b, hb, hx⟩ := List.mem_flatMap.mp hx
    obtain ⟨c, hh⟩ := (hmem b).mp hb
    obtain ⟨s, rfl⟩ := hend hx
    obtain ⟨h1, h2⟩ := D.range hh s
    exact List.mem_range'_1.mpr ⟨h1, by omega⟩
  have hcount : (List.range' 1 (w.fdset.fdMax - 1)).length ≤ idxs.length := by
    have hsize := D.size
    have htwo : idxs.length = 2 * blocks.length := by
      simp [idxs, List.length_flatMap, Nat.mul_comm]
    rw [List.length_range', htwo]
    omega
  have hperm := (List.subperm_of_subset hnodup hsub).perm_of_length_le hcount
  have hin : j ∈ idxs := hperm.mem_iff.mpr (List.mem_range'_1.mpr ⟨hj, by omega⟩)
  obtain ⟨b, hb, hx⟩ := List.mem_flatMap.mp hin
  obtain ⟨c, hh⟩ := (hmem b).mp hb
  obtain ⟨s, hs⟩ := hend hx
  exact ⟨b, c, s, hh, hs⟩

theorem DescriptorTable.slot_fd (D : DescriptorTable w) {x : PollFd} (hx : w.fdset.pollfds[j]? = some x)
    (hj : 1 ≤ j) : ∃ b c s, Held w b c ∧ w.fdset.fdsIdx (ptr b s) = j ∧ x.fd = (side c s).sock := by
  obtain ⟨b, c, s, hh, hs⟩ := D.slot_end hj (List.getElem?_eq_some_iff.mp hx).1
  obtain ⟨y, hy, hfd, _⟩ := D.slot hh s
  rw [hs, hx, Option.some.injEq] at hy
  exact ⟨b, c, s, hh, hs, hy ▸ hfd⟩

/-- The descriptor table is all that the handlers need, once no connection has the
pipe's descriptor. -/
theorem DescriptorTable.tabled (D : DescriptorTable w) (hctl : w.routeMap w.ctlRecv = none) :
    Tabled .poll w := by
  obtain ⟨x0, hx0, hfd0⟩ := D.ctl
  have hslots : w.fdset.pollfds.map PollFd.fd = w.ctlRecv :: connFds w := by
    cases hl : w.fdset.pollfds with
    | nil => simp [hl] at hx0
    | cons y ys =>
      rw [hl] at hx0
      simp only [List.getElem?_cons_zero, Option.some.injEq] at hx0
      simp [connFds, hl, ← hfd0, hx0]
  have hroute : ∀ {b c s}, Held w b c → w.routeMap (side c s).sock ≠ none := by
    intro b c s hh
    rw [hh.route s]
    simp
  have hnodup : (w.fdset.pollfds.map PollFd.fd).Nodup := by
    rw [List.nodup_iff_getElem?_ne_getElem?]
    intro i j hij hj he
    rw [List.length_map] at hj
    rw [List.getElem?_map, List.getElem?_map, List.getElem?_eq_getElem hj,
      List.getElem?_eq_getElem (Nat.lt_trans hij hj)] at he
    have hfd := Option.some.inj he
    obtain ⟨b', c', s', hh', hs', hfd'⟩ := D.slot_fd (List.getElem?_eq_getElem hj) (by omega)
    rcases Nat.eq_zero_or_pos i with rfl | hi
    · have h0 : w.fdset.pollfds[0].fd = w.ctlRecv := by
        rw [List.getElem?_eq_getElem (Nat.lt_trans hij hj), Option.some.injEq] at hx0
        rw [hx0, hfd0]
      exact hroute hh' (hfd' ▸ hfd ▸ h0 ▸ hctl)
    · obtain ⟨b, c, s, hh, hs, hfd1⟩ := D.slot_fd (List.getElem?_eq_getElem (Nat.lt_trans hij hj)) hi
      obtain ⟨rfl, _, rfl⟩ := (held_routed hh s).unique (held_routed hh' s') (hfd1.symm.trans (hfd.trans hfd'))
      omega
  refine ⟨fun hq => ?_, hslots, hslots ▸ hnodup, fun {fd} => ?_, fun _ {b c s} h => ?_⟩
  · obtain ⟨b, c, s, hh, hfd, hq'⟩ := D.only hq
    exact ⟨b, c, s, held_routed hh s, D.kinds hh, hq', hfd⟩
  · constructor
    · intro hm
      obtain ⟨k, hk⟩ := List.mem_iff_getElem?.mp hm
      rw [connFds, List.getElem?_tail, List.getElem?_map] at hk
      obtain ⟨x, hx, rfl⟩ := Option.map_eq_some_iff.mp hk
      obtain ⟨b, c, s, hh, _, hfd⟩ := D.slot_fd hx (by omega)
      rw [hfd]
      exact hroute hh
    · intro hr
      obtain ⟨q, hq⟩ := Option.ne_none_iff_exists'.mp hr
      obtain ⟨b, c, s, hh, hfd, _⟩ := D.only hq
      obtain ⟨x, hx, hxfd, _⟩ := D.slot hh s
      have hm : fd ∈ w.fdset.pollfds.map PollFd.fd := by
        rw [hfd, ← hxfd]
        exact List.mem_map_of_mem (List.mem_of_getElem? hx)
      rw [hslots, List.mem_cons] at hm
      refine hm.resolve_left ?_
      rintro rfl
      exact hr hctl
  · obtain ⟨b', c', s', hh, hfd, _⟩ := D.only h.2
    obtain ⟨rfl, rfl, rfl⟩ := h.unique (held_routed hh s') hfd
    exact D.slot hh s

end connections

/-- In the poll build, the descriptor table of every pool is in order in every state
that the daemon reaches. -/
theorem descriptor_tables (hn : pipes.Nodup) (hu : ∀ fd ∈ pipes, 0 < fd ∧ used fd = true)
    (h : exec (daemonStep .poll cnf ctrl) (Daemon.init pipes used router) ops = some d) :
    ∀ p ∈ d.pools, DescriptorTable (d.world p) := by
  obtain ⟨⟨claim, home, L⟩, ht⟩ :=
    exec_invariant (fun _ _ _ => tables_orderly_step) (tables_orderly_init .poll hn hu router) h
  intro p hp
  obtain ⟨i, hi⟩ := List.mem_iff_getElem?.mp hp
  obtain ⟨T, S⟩ := ht i p hi
  refine descriptor_table T ?_ S
  intro fd q hq
  obtain ⟨b, c, s, _, hh, _, hfd⟩ := served (w := d.world p) ((view_world hi).symm ▸ L) hq
  exact ⟨b, c, s, hh, hfd⟩

/-- A second client is taken to A on the sockets 8 and 9, and the first one leaves. -/
def secondStays : List DaemonOp :=
  connectA ++ [.accept 8 clientAddr (-1) (chooseAt 100), .addConn true true,
    .ctl 0 ⟨.socket 9 EINPROGRESS, 100, fun _ => serverB⟩, .read 0 6 (.data []) ⟨0, 0⟩]

/-- The state that the run reaches in the poll build. -/
def polled (ops : List DaemonOp) : Daemon :=
  (exec (daemonStep .poll leastConns noWdog) oneDaemon ops).getD oneDaemon

/-- The slots of the connection that stays have moved to the front. -/
theorem descriptor_tables_second_stays :
    (polled secondStays).pools.map (fun p => (p.fdset.pollfds.map PollFd.fd, p.nConns)) =
      [([5, 8, 9], 1)] ∧
    ∀ p ∈ (polled secondStays).pools, DescriptorTable ((polled secondStays).world p) := by
  have hrun : exec (daemonStep .poll leastConns noWdog) oneDaemon secondStays =
    some (polled secondStays) := exec_getD oneDaemon (by decide +kernel)
  exact ⟨by decide +kernel, descriptor_tables (by simp) (by decide) hrun⟩

end Glb.Proofs.Descriptors
