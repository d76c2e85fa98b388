import Glb.Events
import Glb.Proofs.Turns

namespace Glb.Proofs.Counts
open Function Lib.Run Lib.Tally PoolFrame PoolEvents DaemonSteps Ownership DaemonLedger Registry Blocks
open RouterRun RouterCount LiveConns Turns

variable {build : Build} {cnf : Cnf} {ctrl : Ctrl} {d d' : Daemon} {w u : World} {op : DaemonOp}
variable {claim : Owner → Option Fd} {home home' : Nat → Option Home} {heap : Nat → Option Conn}
variable {i b : Nat} {c c' : Conn} {r r' : Router}

/-- No pool has been told to close anything. -/
def Calm (d : Daemon) : Prop :=
  ∀ p ∈ d.pools, ∀ ctl ∈ p.pipe, (∃ b, ctl = .addConn b) ∨ ctl = .stats

/-- The daemon and its router agree, and what the agreement rests on. -/
structure Balanced (d : Daemon) : Prop extends Listing d where
  conns : ∀ a, connsOf d.router a = liveConns d a
  pools : d.pools ≠ []
  registered : Registered d
  quiet : ∀ b c, d.heap b = some c → Quiet c
  calm : Calm d

/-- A step that is booked on both sides keeps the agreement. -/
theorem turn_conns (hc : ∀ a, connsOf d.router a = liveConns d a) (ht : Turn d d' f) (a : SockAddr) :
    connsOf d'.router a = liveConns d' a := by
  rw [ht.moves.conns, hc, ht.live]

/-- While pools read only what they asked for, and nobody tells them to close
connections, every step of theirs is booked. -/
theorem booked (hb : Balanced d) (hok : CountOk d op) (hp : d.pools[i]? = some p) :
    ¬ Unbooked i (d.world p) op := by
  intro hun
  have hcalm := hb.calm p (List.mem_of_getElem? hp)
  rcases hun with ⟨b, c, recv, send, hh, hk, hi, rfl⟩ | ⟨a, q, hq⟩ | ⟨q, hq⟩
  · exact hok.asked _ rfl c.dst (held_own_end hp hh hk .dst) (hb.quiet b c hh.block hi).1
  · rcases hcalm (.dropDst a) (hq ▸ List.mem_cons_self) with ⟨b, hx⟩ | hx <;> cases hx
  · rcases hcalm .shutdown (hq ▸ List.mem_cons_self) with ⟨b, hx⟩ | hx <;> cases hx

/-- A request that removes no server keeps the agreement. -/
theorem request_conns (hb : Balanced d) (hok : CountOk d (.request req env))
    (hq : ctrlHandleRequest cnf ctrl d req env = some d') :
    Listing d' ∧ ∀ a, connsOf d'.router a = liveConns d' a := by
  obtain ⟨claim, home, L⟩ := hb.registered
  have hlist : Listing d' := by
    refine request_listing hb.toListing L hq fun dst hreq hw => ?_
    subst hreq
    exact absurd hw (not_lt.mpr (hok.keeps dst rfl))
  refine ⟨hlist, fun a => ?_⟩
  obtain ⟨_, _, _, _, _, hnext⟩ := request_frame hq
  have hlive : liveConns d' a = liveConns d a := by
    unfold liveConns
    rw [request_dests L hq, request_dst hb.toListing hq, hnext]
  rw [hlive, ← hb.conns]
  rcases request_router hq with hr | ⟨dst, hreq, _, hr⟩
  · rw [hr]
  · subst hreq
    rw [hr]
    exact (change_accounts cnf hb.nodup (hok.keeps dst rfl) env none).2.1 a

theorem gone_pipe (cnf : Cnf) (w : World) (b : Nat) (c : Conn) (notify : Bool) :
    (gone cnf w b c notify).pipe = w.pipe := by
  cases notify <;> rfl

theorem fate_pipe (hf : Fate cnf i w op u) : ∃ pre, w.pipe = pre ++ u.pipe := by
  have hrem : ∀ {w1 u q}, bare w1 = bare (popped w q) → Removals cnf w1 u → u.pipe = q := by
    intro w1 u q hw hr
    have hw1 : w1.pipe = q := congrArg (fun w => w.pipe) hw
    refine removals_keep (fun v => v.pipe = q) hr ?_ ?_ ?_ hw1
    · intro v v' hb h
      exact (congrArg (fun w => w.pipe) hb).trans h
    · intro v b c _ _ h
      exact (gone_pipe cnf v b c false).trans h
    · intro v b c _ _ _ h
      exact h
  cases hf with
  | read hh hk hf => cases hf <;> exact ⟨[], rfl⟩
  | write hh hk hf => cases hf <;> exact ⟨[], rfl⟩
  | lost env hp _ _ _ => exact ⟨[_], hp⟩
  | added env hp _ hs =>
    rcases hs with ⟨_, rfl, rfl⟩ | ⟨_, fd, _, _, rfl, rfl⟩ <;> exact ⟨[_], hp⟩
  | stats env hp => exact ⟨[_], hp⟩
  | dropped env hp hw hr => exact ⟨[_], hp.trans (by rw [hrem hw hr]; rfl)⟩
  | @shutdown q w1 u env hp hw hr =>
    have hu : u.pipe = q := hrem hw hr
    exact ⟨[_], hp.trans (by rw [← hu]; rfl)⟩

theorem calm_pool (hc : Calm d) (hs : PoolStep cnf d op d' i p u w') : Calm d' := by
  obtain ⟨hp, _, hf, hbare, rfl⟩ := hs
  obtain ⟨pre, hpre⟩ := fate_pipe hf
  have hpipe : w'.pipe = u.pipe := congrArg (fun w => w.pipe) hbare
  intro p' hp' ctl hctl
  rcases List.mem_or_eq_of_mem_set hp' with hp' | rfl
  · exact hc p' hp' ctl hctl
  · refine hc p (List.mem_of_getElem? hp) ctl ?_
    have hw : (d.world p).pipe = p.pipe := rfl
    rw [← hw, hpre]
    exact List.mem_append_right pre (hpipe ▸ hctl)

theorem calm_enqueued (hc : Calm d) : Calm (enqueued d i b) := by
  intro p hp ctl hctl
  obtain ⟨j, hj⟩ := List.mem_iff_getElem?.mp hp
  simp only [enqueued, List.getElem?_modify, Option.map_eq_map, Option.map_eq_some_iff] at hj
  obtain ⟨p0, hp0, rfl⟩ := hj
  have hold := hc p0 (List.mem_of_getElem? hp0)
  split at hctl
  · rcases List.mem_append.mp hctl with h | h
    · exact hold ctl h
    · exact Or.inl ⟨b, List.mem_singleton.mp h⟩
  · exact hold ctl hctl

/-- Requests that remove nothing have the pools close nothing. -/
theorem calm_request (hc : Calm d) (hok : CountOk d (.request req env))
    (h : ctrlHandleRequest cnf ctrl d req env = some d') : Calm d' := by
  unfold ctrlHandleRequest at h
  cases req with
  | getinfo =>
    simp only [Option.some.injEq] at h
    exact h ▸ hc
  | getstat =>
    simp only [Option.some.injEq] at h
    subst h
    split
    · intro p hp ctl hctl
      obtain ⟨p0, hp0, rfl⟩ := List.mem_map.mp hp
      rcases List.mem_append.mp hctl with h | h
      · exact hc p0 hp0 ctl h
      · exact Or.inr (List.mem_singleton.mp h)
    · exact hc
  | malformed =>
    simp only [Option.some.injEq] at h
    exact h ▸ hc
  | change dst =>
    simp only at h
    split at h
    · cases h
    · have hw : ¬ dst.weight < 0 := not_lt.mpr (hok.keeps dst rfl)
      have hdrop : ctrlDrops ctrl dst = false := by simp [ctrlDrops, hw]
      split at h
      · simp only [Option.some.injEq] at h
        exact h ▸ hc
      · simp only [hdrop, Bool.false_eq_true, ↓reduceIte, Option.some.injEq] at h
        exact h ▸ hc

theorem calm_step (hc : Calm d) (hok : CountOk d op) (hs : Step cnf ctrl d op d') : Calm d' := by
  cases hs with
  | accept _ _ _ hf => cases hf <;> exact hc
  | connected _ hf => cases hf <;> exact hc
  | addConn _ hf =>
    cases hf with
    | noMemory => exact hc
    | unsent => exact hc
    | queued => exact calm_enqueued hc
  | pool hs => exact calm_pool hc hs
  | request hq => exact calm_request hc hok hq
  | drop dst => cases hok.serves
  | destroy => cases hok.serves

/-- One step keeps the daemon and its router in agreement. -/
theorem balanced_step (hb : Balanced d) (hok : CountOk d op)
    (h : daemonStep build cnf ctrl d op = some d') : Balanced d' := by
  obtain ⟨claim, home, L⟩ := hb.registered
  have hs := step_cases L h
  have hquiet : ∀ b c, d'.heap b = some c → Quiet c := by
    intro b c hc
    cases step_origin L h hc with
    | same h0 => exact hb.quiet b c h0
    | touched hp h0 ht => exact quiet_touched hp (hb.quiet b _ h0) hok ht
    | new _ _ hc =>
      subst hc
      exact fun _ => ⟨BitVec.zero_and, rfl⟩
  have hbooks : Listing d' ∧ ∀ a, connsOf d'.router a = liveConns d' a := by
    cases step_course hb.toListing L hb.pools hs with
    | turn ht => exact ⟨hb.toListing.turn ht, turn_conns hb.conns ht⟩
    | unbooked hp hun _ => exact absurd hun (booked hb hok hp)
    | request hq => exact request_conns hb hok hq
  have hpools : d'.pools ≠ [] := by
    rw [← List.length_pos_iff, step_pools hs]
    exact List.length_pos_iff.mpr hb.pools
  exact ⟨hbooks.1, hbooks.2, hpools, registered_step hb.registered h, hquiet, calm_step hb.calm hok hs⟩

theorem balanced_init (hpipes : pipes ≠ []) (hn : pipes.Nodup)
    (hu : ∀ fd ∈ pipes, 0 < fd ∧ used fd = true) : Balanced (Daemon.init pipes used Router.init) where
  toListing := listing_init pipes used
  conns := fun _ => rfl
  pools := by simpa [Daemon.init] using hpipes
  registered := registered_init hn hu Router.init
  quiet := by
    intro b c hc
    cases hc
  calm := by
    intro p hp ctl hctl
    obtain ⟨fd, _, rfl⟩ := List.mem_map.mp hp
    cases hctl

/-- In every run in which descriptors are read only when the pool asked for it
and no server is removed, the router has on its books for each server the
connections that are in some pool or on their way from the listener to one. -/
theorem conns_agree (hpipes : pipes ≠ []) (hn : pipes.Nodup)
    (hu : ∀ fd ∈ pipes, 0 < fd ∧ used fd = true)
    (hrun : exec (daemonStep build cnf ctrl) (Daemon.init pipes used Router.init) ops = some d)
    (hok : Along (daemonStep build cnf ctrl) CountOk (Daemon.init pipes used Router.init) ops) :
    ∀ e ∈ d.router.dst, e.conns = liveConns d e.dst.addr := by
  have hb : Balanced d := exec_keeps (fun _ _ _ => balanced_step)
    (balanced_init hpipes hn hu) hok hrun
  intro e he
  rw [← hb.conns, conns_of_mem hb.nodup he]

/-- The connect to A fails and the connection moves to B. -/
def failOver : List DaemonOp :=
  connectA ++ [addServer serverB, .write 0 7 ⟨111, 101, chooseAt 101, .socket 8 EINPROGRESS, 101⟩ ⟨0, 0⟩]

/-- A connection that fails over is taken off A's account and put on B's. -/
theorem conns_agree_fail_over :
    (∀ e ∈ (reachedBy leastConns failOver).router.dst,
      e.conns = liveConns (reachedBy leastConns failOver) e.dst.addr) ∧
    (reachedBy leastConns failOver).router.dst.map (fun e => (e.dst.addr, e.conns)) =
      [(serverA, 0), (serverB, 1)] := by
  refine ⟨conns_agree (by simp) (by simp) (by decide)
    (reached_by leastConns failOver (by decide +kernel)) ?_, ?_⟩
  · decide +kernel
  · decide +kernel

/-- A client waits for A to take its three bytes, the server of a second one is not
connected yet, and B is listed as well. -/
def backlog : List DaemonOp :=
  connectA ++ [.write 0 7 ⟨0, 100, chooseAt 100, .noSocket 24, 100⟩ ⟨0, EAGAIN⟩,
    .read 0 6 (.data [1, 2, 3]) ⟨0, EAGAIN⟩, .accept 8 clientAddr (-1) (chooseAt 100), .addConn true true,
    .ctl 0 ⟨.socket 9 EINPROGRESS, 100, fun _ => serverB⟩, addServer serverB]

/-- The first pool handles what `epoll_wait` has returned. -/
def afterBatch (d : Daemon) (evs : List EpollEvent) (envs : List EventEnv) : Option Daemon :=
  d.pools[0]?.bind fun p =>
    (exec (poolHandleEvents .epoll leastConns) ⟨d.world p, .event evs⟩ envs).map fun s => d.put 0 s.world

/-- Every event is one that the pool has asked for. -/
def Expected (d : Daemon) (evs : List EpollEvent) : Prop :=
  (evs.map EpollEvent.fd).Nodup ∧ ∀ ev ∈ evs, ∃ p ∈ d.pools, ∃ x ∈ p.fdset.pollfds,
    x.fd = ev.fd ∧ ev.events &&& ~~~x.events = 0

instance (d : Daemon) (evs : List EpollEvent) : Decidable (Expected d evs) :=
  inferInstanceAs (Decidable (_ ∧ _))

def staleBatch : List EpollEvent := [⟨7, poolFdWrite⟩, ⟨9, poolFdWrite⟩, ⟨6, poolFdRead⟩]

/-- A is gone for the first client and refuses the second. The socket towards B gets
the number of the first client's, for which there is still an event. -/
def staleEnv (recv : RecvOut) (errno : Int) : EventEnv :=
  ⟨recv, ⟨0, errno⟩, ⟨111, 101, chooseAt 101, .socket 6 EINPROGRESS, 101⟩, ⟨.noSocket 24, 101, fun _ => serverB⟩⟩

/-- B ends the stream before the connect to it is known to be complete, and the
connection is taken out of the pool without a word to the router. -/
theorem conns_disagree_stale_event :
    exec (daemonStep .epoll leastConns noWdog) oneDaemon backlog = some (reachedBy leastConns backlog) ∧
    Along (daemonStep .epoll leastConns noWdog) CountOk oneDaemon backlog ∧
    Expected (reachedBy leastConns backlog) staleBatch ∧
    ∃ d, afterBatch (reachedBy leastConns backlog) staleBatch (List.replicate 5 (staleEnv (.data []) EPIPE)) = some d ∧
      d.router.dst.map (fun e => (e.dst.addr, e.conns, liveConns d e.dst.addr)) =
        [(serverA, 0, 0), (serverB, 1, 0)] := by
  refine ⟨reached_by leastConns backlog (by decide +kernel), by decide +kernel, by decide +kernel, ?_⟩
  refine Option.map_eq_some_iff.mp (show _ = some _ from ?_)
  decide +kernel

end Glb.Proofs.Counts
