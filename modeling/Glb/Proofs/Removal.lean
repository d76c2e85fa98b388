import Glb.Proofs.Turns

namespace Glb.Proofs.Removal
open Lib.Run PoolFrame DaemonSteps Ownership DaemonLedger Registry Blocks RouterRun RouterCount LiveConns Turns

variable {build : Build} {cnf : Cnf} {d d' : Daemon} {op : DaemonOp}

/-- Every connection that a pool holds goes to a server in the router's table. -/
def ServersListed (d : Daemon) : Prop :=
  ∀ (i : Nat) p b c, d.pools[i]? = some p → Held (d.world p) b c → c.dst.addr ∈ addrs d.router

/-- For every removal that was answered "Ok", every pool was told to drop the
server. -/
def RemovalsTold (d : Daemon) : Prop :=
  ∀ dst, .answer dst true ∈ d.ctrlLog → dst.weight < 0 →
    ∀ i < d.pools.length, .told i dst.addr ∈ d.ctrlLog

/-- Servers are removed only when no connection goes to them. -/
def RemovalOk (d : Daemon) (op : DaemonOp) : Prop := ∀ dst ∈ changedDst op, Unused d dst

instance : Decidable (Unused d dst) := inferInstanceAs (Decidable (_ → _))

instance : Decidable (RemovalOk d op) := inferInstanceAs (Decidable (∀ dst ∈ changedDst op, _))

theorem listing_servers (h : Listing d) (hr : Registered d) : ServersListed d := by
  obtain ⟨claim, home, L⟩ := hr
  intro i p b c hp hh
  have L' := pool_ledger L hp
  have hdest : destOf d b = some c.dst.addr := by
    rw [dest_of_eq L]
    exact dests_held hh.block (held_home L' hh)
  exact h.listed b _ hdest

/-- Without a watchdog no pool is ever told anything. -/
theorem untold_step (L : Ledger (view d) claim home) (hu : ∀ i a, .told i a ∉ d.ctrlLog)
    (h : daemonStep build cnf noWdog d op = some d') : ∀ i a, .told i a ∉ d'.ctrlLog := by
  cases step_cases L h with
  | accept _ _ _ hf => cases hf <;> exact hu
  | connected _ hf => cases hf <;> exact hu
  | addConn _ hf => cases hf <;> exact hu
  | pool hs => exact hs.put ▸ hu
  | request hq =>
    rename_i req env
    have hno : ∀ dst, ctrlDrops noWdog dst = false := by simp [ctrlDrops, noWdog]
    unfold ctrlHandleRequest at hq
    cases req with
    | getinfo =>
      simp only [Option.some.injEq] at hq
      exact hq ▸ hu
    | getstat =>
      simp only [Option.some.injEq] at hq
      subst hq
      split <;> exact hu
    | malformed =>
      simp only [Option.some.injEq] at hq
      exact hq ▸ hu
    | change dst =>
      simp only [hno] at hq
      split at hq
      · cases hq
      · split at hq <;> simp only [Bool.false_eq_true, ↓reduceIte, Option.some.injEq] at hq <;>
          subst hq <;> simpa using hu
  | drop dst => exact hu
  | destroy => exact hu

/-- The daemon without a watchdog, as its steps leave it. -/
structure Orderly (d : Daemon) : Prop extends Listing d where
  registered : Registered d
  pools : d.pools ≠ []
  untold : ∀ i a, .told i a ∉ d.ctrlLog

theorem orderly_step (ho : Orderly d) (hok : RemovalOk d op)
    (h : daemonStep build cnf noWdog d op = some d') : Orderly d' := by
  obtain ⟨claim, home, L⟩ := ho.registered
  have hs := step_cases L h
  have hlist : Listing d' := by
    cases step_course ho.toListing L ho.pools hs with
    | turn ht => exact ho.toListing.turn ht
    | unbooked _ _ hlist => exact hlist
    | request hq =>
      refine request_listing ho.toListing L hq fun dst hreq => ?_
      subst hreq
      exact hok dst rfl
  have hpools : d'.pools ≠ [] := by
    rw [← List.length_pos_iff, step_pools hs]
    exact List.length_pos_iff.mpr ho.pools
  exact ⟨hlist, registered_step ho.registered h, hpools, untold_step L ho.untold h⟩

theorem orderly_init (hpipes : pipes ≠ []) (hn : pipes.Nodup)
    (hu : ∀ fd ∈ pipes, 0 < fd ∧ used fd = true) : Orderly (Daemon.init pipes used Router.init) :=
  ⟨listing_init pipes used, registered_init hn hu Router.init, by simpa [Daemon.init] using hpipes,
    by simp [Daemon.init]⟩

/-- Where nobody was told, all removals were told of if there were none. -/
theorem told_iff (hu : ∀ i a, .told i a ∉ d.ctrlLog) (hp : d.pools ≠ []) :
    RemovalsTold d ↔ ∀ dst, .answer dst true ∈ d.ctrlLog → 0 ≤ dst.weight := by
  constructor
  · intro h dst ha
    by_contra hw
    exact hu 0 dst.addr (h dst ha (not_le.mp hw) 0 (List.length_pos_iff.mpr hp))
  · intro h dst ha hw
    exact absurd (h dst ha) (not_le.mpr hw)

/-- In every run without a watchdog that removes servers only when no connection
goes to them, all connections go to listed servers. The pools are told of the
removals if and only if there were none. -/
theorem removals_unused (hpipes : pipes ≠ []) (hn : pipes.Nodup)
    (hu : ∀ fd ∈ pipes, 0 < fd ∧ used fd = true)
    (hrun : exec (daemonStep build cnf noWdog) (Daemon.init pipes used Router.init) ops = some d)
    (hok : Along (daemonStep build cnf noWdog) RemovalOk (Daemon.init pipes used Router.init) ops) :
    ServersListed d ∧
      (RemovalsTold d ↔ ∀ dst, .answer dst true ∈ d.ctrlLog → 0 ≤ dst.weight) := by
  have ho : Orderly d :=
    exec_keeps (fun _ _ _ => orderly_step) (orderly_init hpipes hn hu) hok hrun
  exact ⟨listing_servers ho.toListing ho.registered, told_iff ho.untold ho.pools⟩

/-- The operator adds B and removes it before anyone is connected to it. -/
def removeB : List DaemonOp :=
  connectA ++ [addServer serverB, .request (.change ⟨serverB, -1⟩) ⟨101, 101, true⟩]

/-- The connection to A stays listed, but no pool was told about B. -/
theorem removals_unused_remove_b :
    ServersListed (reachedBy leastConns removeB) ∧ ¬ RemovalsTold (reachedBy leastConns removeB) := by
  obtain ⟨hlisted, htold⟩ := removals_unused (by simp) (by simp) (by decide)
    (reached_by leastConns removeB (by decide +kernel)) (by decide +kernel)
  refine ⟨hlisted, fun h => ?_⟩
  have hanswer : .answer ⟨serverB, -1⟩ true ∈ (reachedBy leastConns removeB).ctrlLog := by
    decide +kernel
  exact absurd (htold.mp h _ hanswer) (by decide)

/-- The operator removes A while a client is connected to it. -/
def removeA : List DaemonOp := connectA ++ [.request (.change ⟨serverA, -1⟩) ⟨101, 101, true⟩]

/-- The removal is answered "Ok", no pool hears of it, and the connection to A
stays. -/
theorem removal_leaves_connection :
    exec (daemonStep .epoll leastConns noWdog) oneDaemon removeA =
      some (reachedBy leastConns removeA) ∧
    ¬ ServersListed (reachedBy leastConns removeA) ∧ ¬ RemovalsTold (reachedBy leastConns removeA) := by
  have hconn : ((reachedBy leastConns removeA).heap 0).map
      (fun c => (c.inc.sock, c.dst.sock, c.dst.addr)) = some (6, 7, serverA) := by decide +kernel
  have hroutes : (reachedBy leastConns removeA).pools[0]?.map
      (fun p => (p.routeMap 6, p.routeMap 7)) = some (some (dstPtr 0), some (incPtr 0)) := by
    decide +kernel
  refine ⟨reached_by leastConns removeA (by decide +kernel), fun h => ?_, fun h => ?_⟩
  · obtain ⟨c, hc, hsocks⟩ := Option.map_eq_some_iff.mp hconn
    obtain ⟨p, hp, hroute⟩ := Option.map_eq_some_iff.mp hroutes
    simp only [Prod.mk.injEq] at hsocks hroute
    have hh : Held ((reachedBy leastConns removeA).world p) 0 c := by
      refine ⟨hc, fun s => ?_⟩
      cases s with
      | inc => exact (congrArg _ hsocks.1).trans hroute.1
      | dst => exact (congrArg _ hsocks.2.1).trans hroute.2
    have hmem := h 0 p 0 c hp hh
    rw [hsocks.2.2] at hmem
    revert hmem
    decide +kernel
  · have hanswer : .answer ⟨serverA, -1⟩ true ∈ (reachedBy leastConns removeA).ctrlLog := by
      decide +kernel
    have htold := h _ hanswer (by decide) 0 (by decide +kernel)
    revert htold
    decide +kernel

end Glb.Proofs.Removal
