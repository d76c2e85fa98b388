import Glb.Proofs.Counts
import Glb.Proofs.NoFault

namespace Glb.Proofs.Shutdown
open Function Lib.Run PoolFrame PoolEvents DaemonSteps Ownership DaemonLedger Registry FdTable FdSteps
open Descriptors NoFault RouterRun

variable {build : Build} {cnf : Cnf} {ctrl : Ctrl} {d d' : Daemon} {w w' u : World} {v : View} {op : DaemonOp}
variable {claim : Owner → Option Fd} {home : Nat → Option Home} {i : Nat} {p : Pool} {pre post : List PoolCtl}

section worlds

/-- A scan that takes every connection it meets and comes to its end has taken all. -/
theorem scan_empties (hb : Booked v i w) (T : Tabled build w) (S : Sized w) (hc : count = 2 * w.nConns)
    (h : scanLoop build cnf (fun _ _ => some true) n fd count w = some w') :
    Tabled build w' ∧ Sized w' ∧ w'.nConns = 0 := by
  induction n generalizing fd count w with
  | zero =>
    unfold scanLoop at h
    split at h
    · cases h
      exact ⟨T, S, by omega⟩
    · cases h
  | succ n ih =>
    unfold scanLoop at h
    split at h
    · cases h
      exact ⟨T, S, by omega⟩
    · split at h
      · exact ih hb T S hc h
      · rename_i p hp
        simp only [Option.bind_eq_bind, Option.bind_some, ↓reduceIte, Option.bind_eq_some_iff] at h
        obtain ⟨w1, h1, h⟩ := h
        obtain ⟨b, c, s, hh, hk, hfd, hb1, _⟩ := removed_cases hb hp h1
        rw [hfd] at h1
        obtain ⟨T1, S1⟩ := S.removed T hh h1
        have hconns : w1.nConns = w.nConns - 1 := by
          have hbare := congrArg (fun w => w.nConns) (remove_spec hh hk s h1)
          split at hbare <;> exact hbare
        exact ih hb1 T1 S1 (by omega) h

theorem no_conns_no_routes (T : Tabled build w) (S : Sized w) (h0 : w.nConns = 0) (fd : Fd) :
    w.routeMap fd = none := by
  have hlen : (connFds w).length = 0 := by
    have hsize := S.size
    omega
  by_contra hr
  have hmem := T.mem.mpr hr
  rw [List.length_eq_zero_iff.mp hlen] at hmem
  cases hmem

/-- What is left of a pool that has handled its shutdown. -/
structure Stopped (p : Pool) : Prop where
  shutdown : p.shutdown = true
  conns : p.nConns = 0
  routes : ∀ fd, p.routeMap fd = none

/-- What a pool thread reads its next step from. -/
def SamePipe (w u : World) : Prop := u.pipe = w.pipe ∧ u.shutdown = w.shutdown

theorem removals_same (hr : Removals cnf w u) : SamePipe w u := by
  refine removals_keep (SamePipe w) hr ?_ ?_ ?_ ⟨rfl, rfl⟩
  · intro v v' hb h
    exact ⟨(congrArg (fun w => w.pipe) hb).trans h.1, (congrArg (fun w => w.shutdown) hb).trans h.2⟩
  · intro v b c _ _ h
    exact h
  · intro v b c _ _ _ h
    exact h

/-- Events on connections leave the pipe alone. -/
theorem event_same (hop : ∀ env, op ≠ .ctl i env) (hf : Fate cnf i w op u) : SamePipe w u := by
  cases hf with
  | read hh hk hf => cases hf <;> exact ⟨rfl, rfl⟩
  | write hh hk hf => cases hf <;> exact ⟨rfl, rfl⟩
  | _ => exact absurd rfl (hop _)

/-- A ctl is taken from the pipe; the pool goes on if it is not told to stop. -/
theorem ctl_pops (hs : w.shutdown = false) (hf : Fate cnf i w (.ctl i env) u) :
    ∃ ctl, w.pipe = ctl :: u.pipe ∧ (ctl ≠ .shutdown → u.shutdown = false) := by
  have hscan : ∀ {w1 u q}, bare w1 = bare (popped w q) → Removals cnf w1 u → u.pipe = q ∧ u.shutdown = false := by
    intro w1 u q hb hr
    obtain ⟨h1, h2⟩ := removals_same hr
    exact ⟨h1.trans (congrArg (fun w => w.pipe) hb), h2.trans ((congrArg (fun w => w.shutdown) hb).trans hs)⟩
  cases hf with
  | lost _ hp _ _ _ => exact ⟨_, hp, fun _ => hs⟩
  | added _ hp _ hsock =>
    rcases hsock with ⟨_, rfl, rfl⟩ | ⟨_, fd, _, _, rfl, rfl⟩ <;> exact ⟨_, hp, fun _ => hs⟩
  | stats _ hp => exact ⟨_, hp, fun _ => hs⟩
  | dropped _ hp hb hr =>
    obtain ⟨h1, h2⟩ := hscan hb hr
    exact ⟨_, h1.symm ▸ hp, fun _ => h2⟩
  | @shutdown q w1 u _ hp hb hr =>
    have hpipe : (ended u).pipe = q := (hscan hb hr).1
    exact ⟨_, hpipe.symm ▸ hp, fun hne => absurd rfl hne⟩

theorem shutdown_stops (L : Ledger (seen v i w) claim home) (T : Tabled build w) (S : Sized w)
    (hq : w.pipe = .shutdown :: q) (h : poolReadCtl build cnf w env = some w') : Stopped w'.toPool := by
  obtain ⟨st, hread⟩ := ctl_cases h
  cases hread with
  | @shutdown pipe u hp h1 =>
    have hcount : (w.fdset.fdMax - 1 : Int) = 2 * (fetched w pipe).nConns := by
      have hsize : ((connFds w).length : Int) = 2 * (fetched w pipe).nConns := S.size
      have hmax : w.fdset.fdMax = (connFds w).length + 1 := Tabled.fd_max T
      omega
    obtain ⟨T1, S1, h0⟩ := scan_empties (booked_fetched L hp (by simp)) (T.frame rfl rfl rfl rfl)
      ⟨S.size, S.room⟩ hcount h1
    have hroutes := no_conns_no_routes T1 S1 h0
    exact ⟨rfl, h0, hroutes⟩
  | addConn hp _ => simp [hq] at hp
  | dropDst hp _ => simp [hq] at hp
  | stats hp => simp [hq] at hp

end worlds

section daemon

/-- Whether a step takes a ctl from the pipe of pool `i`. -/
def takesCtl (i : Nat) : DaemonOp → Bool
  | .ctl j _ => j = i
  | _ => false

/-- What the other threads do to a pool: they write to its pipe. -/
theorem shutdown_written (hp : d.pools[i]? = some p) (hs : Step cnf ctrl d op d') :
    (∃ more, d'.pools[i]? = some { p with pipe := p.pipe ++ more }) ∨ ∃ u w', PoolStep cnf d op d' i p u w' := by
  have hsame : d'.pools = d.pools → ∃ more, d'.pools[i]? = some { p with pipe := p.pipe ++ more } := by
    intro h
    exact ⟨[], by rw [h, List.append_nil]; exact hp⟩
  have hsignal : Signalled d d' → ∃ more, d'.pools[i]? = some { p with pipe := p.pipe ++ more } := by
    rintro ⟨ctls, _, h⟩
    exact ⟨ctls, by simp [h, hp]⟩
  cases hs with
  | accept _ _ _ h => exact Or.inl (hsame (by cases h <;> rfl))
  | connected _ h => exact Or.inl (hsame (by cases h <;> rfl))
  | addConn _ h =>
    left
    cases h with
    | noMemory => exact hsame rfl
    | unsent => exact hsame rfl
    | queued =>
      simp only [enqueued, allocated, List.getElem?_modify, hp, Option.map_eq_map, Option.map_some]
      split
      · exact ⟨_, rfl⟩
      · exact ⟨[], by rw [List.append_nil]⟩
  | @pool _ _ j p' u w' h =>
    by_cases hj : j = i
    · subst hj
      have hpp : p' = p := Option.some.inj (h.pool.symm.trans hp)
      exact Or.inr ⟨u, w', hpp ▸ h⟩
    · left
      refine ⟨[], ?_⟩
      rw [h.put, List.append_nil]
      exact (List.getElem?_set_ne hj).trans hp
  | request h => exact Or.inl (hsignal (request_frame h).1)
  | drop dst => exact Or.inl (hsignal (bcast_signalled _ (by simp)))
  | destroy => exact Or.inl (hsignal (bcast_signalled _ (by simp)))

/-- A step that takes no ctl of the pool leaves it running or stopped, and its pipe no shorter. -/
theorem other_pool_step (hp : d.pools[i]? = some p) (ht : takesCtl i op = false) (hs : Step cnf ctrl d op d') :
    ∃ p', d'.pools[i]? = some p' ∧ p'.shutdown = p.shutdown ∧ (∃ more, p'.pipe = p.pipe ++ more) ∧
      (Stopped p → Stopped p') := by
  rcases shutdown_written hp hs with ⟨more, hp'⟩ | ⟨u, w', h⟩
  · exact ⟨_, hp', rfl, ⟨more, rfl⟩, fun hst => ⟨hst.shutdown, hst.conns, hst.routes⟩⟩
  · have hi : i < d.pools.length := (List.getElem?_eq_some_iff.mp hp).1
    have hop : ∀ env, op ≠ .ctl i env := by
      rintro env rfl
      simp [takesCtl] at ht
    obtain ⟨h1, h2⟩ := event_same hop h.fate
    have hpipe : w'.pipe = p.pipe := (congrArg (fun w => w.pipe) h.bare).trans h1
    have hshut : w'.shutdown = p.shutdown := (congrArg (fun w => w.shutdown) h.bare).trans h2
    refine ⟨w'.toPool, by simp [h.put, Daemon.put, hi], hshut, ⟨[], by rw [List.append_nil]; exact hpipe⟩, ?_⟩
    intro hst
    have hrun := h.running
    rw [hst.shutdown] at hrun
    cases hrun

theorem ctl_step (hp : d.pools[i]? = some p) (ht : takesCtl i op = true)
    (h : daemonStep build cnf ctrl d op = some d') :
    p.shutdown = false ∧ ∃ env w', poolReadCtl build cnf (d.world p) env = some w' ∧ d' = d.put i w' := by
  cases op with
  | ctl j env =>
    have hji : j = i := by simpa [takesCtl] using ht
    subst hji
    have hon : d.onPool j (fun w => poolReadCtl build cnf w env) = some d' := h
    obtain ⟨p1, w', hp1, hrun, hread, rfl⟩ := on_pool hon
    have hpp : p1 = p := Option.some.inj (hp1.symm.trans hp)
    subst hpp
    exact ⟨hrun, env, w', hread, rfl⟩
  | _ => simp [takesCtl] at ht

/-- A stopped pool stays as it is and takes no ctl. -/
theorem stopped_run (hd : TablesOrderly build d) (hp : d.pools[i]? = some p) (hst : Stopped p)
    (h : exec (daemonStep build cnf ctrl) d ops = some d') :
    (∃ p', d'.pools[i]? = some p' ∧ Stopped p') ∧ ops.countP (takesCtl i) = 0 := by
  induction ops generalizing d p with
  | nil =>
    cases h
    exact ⟨⟨p, hp, hst⟩, rfl⟩
  | cons op ops ih =>
    obtain ⟨d1, h1, h⟩ := exec_cons_some h
    obtain ⟨claim, home, L⟩ := hd.1
    cases ht : takesCtl i op with
    | true =>
      have hrun := (ctl_step hp ht h1).1
      rw [hst.shutdown] at hrun
      cases hrun
    | false =>
      obtain ⟨p1, hp1, _, _, hstay⟩ := other_pool_step hp ht (step_cases L h1)
      obtain ⟨hend, hcount⟩ := ih (tables_orderly_step hd h1) hp1 (hstay hst) h
      exact ⟨hend, by rw [List.countP_cons, hcount, ht]; rfl⟩

/-- A pool with a shutdown in its pipe, after any run of the daemon. -/
theorem run_stops (hd : TablesOrderly build d) (hp : d.pools[i]? = some p) (hs : p.shutdown = false)
    (hq : p.pipe = pre ++ .shutdown :: post) (hpre : .shutdown ∉ pre)
    (h : exec (daemonStep build cnf ctrl) d ops = some d') :
    ∃ p', d'.pools[i]? = some p' ∧ ops.countP (takesCtl i) ≤ pre.length + 1 ∧
      (ops.countP (takesCtl i) ≤ pre.length → p'.shutdown = false) ∧
      (ops.countP (takesCtl i) = pre.length + 1 → Stopped p') := by
  induction ops generalizing d p pre post with
  | nil =>
    cases h
    exact ⟨p, hp, Nat.zero_le _, fun _ => hs, fun h0 => by simp at h0⟩
  | cons op ops ih =>
    obtain ⟨d1, h1, h⟩ := exec_cons_some h
    have hd1 := tables_orderly_step hd h1
    obtain ⟨⟨claim, home, L⟩, htab⟩ := hd
    cases ht : takesCtl i op with
    | true =>
      obtain ⟨_, env, w', hread, rfl⟩ := ctl_step hp ht h1
      have L' := pool_ledger L hp
      have hget : (d.put i w').pools[i]? = some w'.toPool := by
        simp [Daemon.put, (List.getElem?_eq_some_iff.mp hp).1]
      rw [List.countP_cons, ht]
      cases pre with
      | nil =>
        -- the shutdown itself
        obtain ⟨T, S⟩ := htab i p hp
        obtain ⟨⟨p', hp', hst⟩, hcount⟩ := stopped_run hd1 hget (shutdown_stops L' T S hq hread) h
        exact ⟨p', hp', by simp [hcount], by simp [hcount], fun _ => hst⟩
      | cons ctl pre =>
        obtain ⟨u, hf, hb⟩ := ctl_fate L' hread
        obtain ⟨ctl', hpop, hgo⟩ := ctl_pops hs hf
        have hpop' : ctl :: (pre ++ .shutdown :: post) = ctl' :: u.pipe := hq.symm.trans hpop
        rw [List.cons.injEq] at hpop'
        have hpipe : w'.pipe = pre ++ .shutdown :: post := (congrArg (fun w => w.pipe) hb).trans hpop'.2.symm
        have hne : ctl' ≠ .shutdown := by
          rintro rfl
          exact hpre (by rw [hpop'.1]; exact List.mem_cons_self)
        have hrun : w'.shutdown = false := (congrArg (fun w => w.shutdown) hb).trans (hgo hne)
        obtain ⟨p', hp', hle, hgoes, hstops⟩ := ih hd1 hget hrun hpipe (fun hm => hpre (List.mem_cons_of_mem _ hm)) h
        refine ⟨p', hp', ?_, ?_, ?_⟩
        · simpa using hle
        · simpa using hgoes
        · simpa using hstops
    | false =>
      obtain ⟨p1, hp1, hs1, ⟨more, hq1⟩, _⟩ := other_pool_step hp ht (step_cases L h1)
      rw [hq, List.append_assoc, List.cons_append] at hq1
      rw [List.countP_cons, ht]
      exact ih hd1 hp1 (hs1.trans hs) hq1 hpre h

/-- A pool stops at its shutdown message and not before, with nothing left in its tables. From
every state of the daemon in which such a message is in the pipe of a pool that runs, and
after whatever its threads then do, the pool has handled no more than the messages up to
it; it has stopped exactly if it has handled them all, and then its map is empty and it
counts no connection. -/
theorem pool_stops_at_shutdown (hn : pipes.Nodup) (hu : ∀ fd ∈ pipes, 0 < fd ∧ used fd = true)
    (h0 : exec (daemonStep build cnf ctrl) (Daemon.init pipes used router) before = some d)
    (hp : d.pools[i]? = some p) (hs : p.shutdown = false) (hq : p.pipe = pre ++ .shutdown :: post)
    (hpre : .shutdown ∉ pre) (h : exec (daemonStep build cnf ctrl) d ops = some d') :
    ∃ p', d'.pools[i]? = some p' ∧ ops.countP (takesCtl i) ≤ pre.length + 1 ∧
      (p'.shutdown = true ↔ ops.countP (takesCtl i) = pre.length + 1) ∧
      (p'.shutdown = true → (∀ fd, p'.routeMap fd = none) ∧ p'.nConns = 0) := by
  have hd := exec_invariant (fun _ _ _ => tables_orderly_step) (tables_orderly_init build hn hu router) h0
  obtain ⟨p', hp', hle, hgoes, hstops⟩ := run_stops hd hp hs hq hpre h
  have hall : p'.shutdown = true → ops.countP (takesCtl i) = pre.length + 1 := by
    intro hshut
    refine Nat.le_antisymm hle (Nat.lt_of_not_le fun hfew => ?_)
    rw [hgoes hfew] at hshut
    cases hshut
  exact ⟨p', hp', hle, ⟨hall, fun hc => (hstops hc).shutdown⟩, fun hshut => ⟨(hstops (hall hshut)).routes,
    (hstops (hall hshut)).conns⟩⟩

/-- The daemon is destroyed while it connects a client. -/
theorem pool_stops_at_shutdown_connecting :
    ∃ d' p', exec (daemonStep .epoll leastConns noWdog) (reachedBy leastConns (connectA ++ [.destroy]))
        [.ctl 0 ⟨.noSocket 1, 100, fun _ => serverB⟩] = some d' ∧
      d'.pools[0]? = some p' ∧ p'.shutdown = true ∧ ∀ fd, p'.routeMap fd = none := by
  have hpool : (reachedBy leastConns (connectA ++ [.destroy])).pools[0]?.map (fun p => (p.shutdown, p.pipe)) =
      some (false, [.shutdown]) := by decide +kernel
  obtain ⟨p, hp, hq⟩ := Option.map_eq_some_iff.mp hpool
  rw [Prod.mk.injEq] at hq
  have hsome : (exec (daemonStep .epoll leastConns noWdog) (reachedBy leastConns (connectA ++ [.destroy]))
      [.ctl 0 ⟨.noSocket 1, 100, fun _ => serverB⟩]).isSome = true := by decide +kernel
  obtain ⟨d', hd'⟩ := Option.isSome_iff_exists.mp hsome
  obtain ⟨p', hp', _, hiff, hempty⟩ := pool_stops_at_shutdown (by simp) (by decide)
    (reached_by leastConns (connectA ++ [.destroy]) (by decide +kernel)) hp hq.1
    (show p.pipe = [] ++ .shutdown :: [] from hq.2) (by simp) hd'
  have hstop : p'.shutdown = true := hiff.mpr rfl
  exact ⟨d', p', hd', hp', hstop, (hempty hstop).1⟩

end daemon

end Glb.Proofs.Shutdown
