import Glb.Proofs.PoolEvents

namespace Glb.Proofs.DaemonSteps
open Function PoolFrame

variable {build : Build} {cnf : Cnf} {ctrl : Ctrl} {d d' : Daemon}

theorem fresh_iff : d.fresh fd = true ↔ 0 < fd ∧ d.isOpen fd = false := by
  simp [Daemon.fresh]

/-- Log entries of the listener. -/
def noted (d : Daemon) (l : List Ev) : Daemon := { d with log := d.log ++ l }

/-- What `accept ()` and the first choice of a destination come to. -/
inductive AcceptFate (cnf : Cnf) (d : Daemon) (fd : Fd) (addr : SockAddr) (env : ChooseEnv) :
    Daemon → Prop
  | turned (l : List Ev) (hl : Silent l) : AcceptFate cnf d fd addr env (noted d l)
  | none (r : Router) (l : List Ev) (hl : Silent l)
    (hr : glbRouterChooseDst cnf env d.router (connectHint cnf addr) = (r, none)) :
    AcceptFate cnf d fd addr env { noted d l with router := r }
  | noneSync (r : Router) (l : List Ev) (hl : Silent l)
    (hr : routerConnectStart cnf env d.router (connectHint cnf addr) = (r, none)) :
    AcceptFate cnf d fd addr env { noted d l with router := routerConnectEnd r }
  | chosen (r : Router) (dst : SockAddr)
    (hr : glbRouterChooseDst cnf env d.router (connectHint cnf addr) = (r, some dst)) :
    AcceptFate cnf d fd addr env
      { d.opened fd with router := r, listener := .chosen fd addr (-1) dst false }
  | connecting (r : Router) (i : Nat) (sock : Fd) (hp : 0 < sock)
    (hf : (d.opened fd).isOpen sock = false)
    (hr : routerConnectStart cnf env d.router (connectHint cnf addr) = (r, some i)) :
    AcceptFate cnf d fd addr env
      { (d.opened fd).opened sock with
        router := r, listener := .connecting fd addr sock (connectHint cnf addr) i }

theorem open_close {f : Fd → Bool} (h : f fd = false) :
    update (update f fd true) fd false = f := by
  rw [update_idem, ← h, update_eq_self]

theorem accept_cases (h : listenerAccept cnf d fd addr sock env = some d') :
    d.listener = .idle ∧ 0 < fd ∧ d.isOpen fd = false ∧ AcceptFate cnf d fd addr env d' := by
  unfold listenerAccept at h
  split at h
  · cases h
  · rename_i hpre
    simp only [ne_eq, Bool.not_eq_true', not_or, not_not, Bool.not_eq_false] at hpre
    obtain ⟨hidle, hfresh⟩ := hpre
    obtain ⟨hp, hf⟩ := fresh_iff.mp hfresh
    refine ⟨hidle, hp, hf, ?_⟩
    have hshut : ∀ e : Daemon, e.isOpen = d.isOpen →
        (e.opened fd).close fd = noted e [.close fd] := by
      intro e he
      have hfe : e.isOpen fd = false := he ▸ hf
      simp [Daemon.opened, Daemon.close, noted, open_close hfe]
    have hone : Silent [Ev.close fd] := by simp [Silent]
    simp only at h
    split at h
    · simp only [Option.some.injEq] at h
      subst h
      rw [hshut d rfl]
      exact .turned _ hone
    · split at h
      · split at h
        · rename_i r dst hr
          simp only [Option.some.injEq] at h
          subst h
          exact .chosen r dst hr
        · rename_i r hr
          simp only [Option.some.injEq] at h
          subst h
          have hd := hshut { d with router := r } rfl
          exact hd ▸ .none r _ hone hr
      · split at h
        · split at h
          · cases h
          · simp only [Option.some.injEq] at h
            subst h
            rw [hshut d rfl]
            exact .turned _ hone
        · split at h
          · cases h
          · rename_i hsock
            simp only [Bool.not_eq_true', Bool.not_eq_false] at hsock
            obtain ⟨hps, hfs⟩ := fresh_iff.mp hsock
            split at h
            · rename_i r i hr
              simp only [Option.some.injEq] at h
              subst h
              exact .connecting r i sock hps hfs hr
            · rename_i r hr
              simp only [Option.some.injEq] at h
              subst h
              have htwo : Silent [Ev.close sock, Ev.close fd] := by simp [Silent]
              have hd : ((({ (d.opened fd).opened sock with router := routerConnectEnd r } :
                  Daemon).close sock).close fd) =
                  { noted d [.close sock, .close fd] with router := routerConnectEnd r } := by
                have hfs' : update d.isOpen fd true sock = false := hfs
                simp [Daemon.opened, Daemon.close, noted, open_close hfs', open_close hf]
              exact hd ▸ .noneSync r _ htwo hr

/-- What the end of a blocking `connect ()` comes to. -/
inductive ConnectedFate (cnf : Cnf) (d : Daemon) (inc : Fd) (addr : SockAddr) (sock : Fd)
    (hint : UInt32) (i : Nat) (now : Int) (env : ChooseEnv) : Daemon → Prop
  | retry (r : Router) (j : Nat)
    (hr : routerConnectRetry cnf now env d.router hint i = (r, some j)) :
    ConnectedFate cnf d inc addr sock hint i now env
      { d with router := r, listener := .connecting inc addr sock hint j }
  | failed (r : Router) (hr : routerConnectRetry cnf now env d.router hint i = (r, none)) :
    ConnectedFate cnf d inc addr sock hint i now env
      (({ d with router := routerConnectEnd r, listener := .idle } : Daemon).close sock |>.close inc)
  | done (dst : SockAddr) (ha : d.router.addrAt (some i) = some dst) :
    ConnectedFate cnf d inc addr sock hint i now env
      { d with router := routerConnectEnd d.router, listener := .chosen inc addr sock dst true }
  | pending (dst : SockAddr) (ha : d.router.addrAt (some i) = some dst) :
    ConnectedFate cnf d inc addr sock hint i now env
      { d.close sock with
        router := routerConnectEnd d.router, listener := .chosen inc addr (-EINPROGRESS) dst false }

theorem connected_cases (h : listenerConnected cnf d error now env = some d') :
    ∃ inc addr sock hint i, d.listener = .connecting inc addr sock hint i ∧
      ConnectedFate cnf d inc addr sock hint i now env d' := by
  unfold listenerConnected at h
  split at h
  · rename_i inc addr sock hint i hl
    refine ⟨inc, addr, sock, hint, i, hl, ?_⟩
    split at h
    · split at h
      · rename_i r j hr
        simp only [Option.some.injEq] at h
        subst h
        exact .retry r j hr
      · rename_i r hr
        simp only [Option.some.injEq] at h
        subst h
        exact .failed r hr
    · split at h
      · cases h
      · rename_i dst ha
        split at h
        · simp only [Option.some.injEq] at h
          subst h
          exact .done dst ha
        · simp only [Option.some.injEq] at h
          subst h
          exact .pending dst ha
  · cases h

/-- The daemon with a block just filled in. -/
def allocated (d : Daemon) (c : Conn) : Daemon :=
  { d with heap := update d.heap d.nextBlock (some c), nextBlock := d.nextBlock + 1 }

/-- The daemon with a block handed to a pool. -/
def enqueued (d : Daemon) (i b : Nat) : Daemon :=
  { d with
    pools := d.pools.modify i fun p => { p with pipe := p.pipe ++ [.addConn b] }
    listener := .idle }

/-- What `glb_pool_add_conn` comes to. -/
inductive AddFate (cnf : Cnf) (d : Daemon) (inc : Fd) (addr : SockAddr) (sock : Fd)
    (dst : SockAddr) (complete : Bool) : Daemon → Prop
  | noMemory : AddFate cnf d inc addr sock dst complete (listenerUndo cnf d inc sock dst)
  | unsent : AddFate cnf d inc addr sock dst complete
      (listenerUndo cnf (allocated d (newConn inc addr sock dst complete)) inc sock dst)
  | queued : AddFate cnf d inc addr sock dst complete
      (enqueued (allocated d (newConn inc addr sock dst complete)) (poolGetPool d.pools) d.nextBlock)

theorem add_cases (h : glbPoolAddConn cnf d malloc write = some d') :
    ∃ inc addr sock dst complete, d.listener = .chosen inc addr sock dst complete ∧
      AddFate cnf d inc addr sock dst complete d' := by
  unfold glbPoolAddConn at h
  split at h
  · rename_i inc addr sock dst complete hl
    refine ⟨inc, addr, sock, dst, complete, hl, ?_⟩
    split at h
    · simp only [Option.some.injEq] at h
      subst h
      exact .noMemory
    · simp only at h
      split at h
      · simp only [Option.some.injEq] at h
        subst h
        exact .queued
      · simp only [Option.some.injEq] at h
        subst h
        exact .unsent
  · cases h

/-- A handler ran in the thread of pool `i`. -/
theorem on_pool (h : d.onPool i handle = some d') :
    ∃ p w', d.pools[i]? = some p ∧ p.shutdown = false ∧ handle (d.world p) = some w' ∧
      d' = d.put i w' := by
  unfold Daemon.onPool at h
  split at h
  · cases h
  · rename_i p hp
    split at h
    · cases h
    · rename_i hs
      obtain ⟨w', hw, rfl⟩ := Option.map_eq_some_iff.mp h
      exact ⟨p, w', hp, by simpa using hs, hw, rfl⟩

/-- The daemon with ctls that carry no block added to the pipes. -/
def Signalled (d d' : Daemon) : Prop :=
  ∃ ctls : List PoolCtl, (∀ ctl ∈ ctls, ∀ b, ctl ≠ .addConn b) ∧
    d'.pools = d.pools.map (fun p => { p with pipe := p.pipe ++ ctls })

theorem bcast_signalled (ctl : PoolCtl) (hc : ∀ b, ctl ≠ .addConn b) :
    Signalled d (poolBcastCtl d ctl) :=
  ⟨[ctl], by simpa using hc, rfl⟩

theorem signalled_self (h : d'.pools = d.pools) : Signalled d d' :=
  ⟨[], by simp, by simp [h]⟩

/-- A control request touches the router and the pipes only. -/
theorem request_frame (h : ctrlHandleRequest cnf ctrl d req env = some d') :
    Signalled d d' ∧ d'.heap = d.heap ∧ d'.isOpen = d.isOpen ∧ d'.log = d.log ∧
      d'.listener = d.listener ∧ d'.nextBlock = d.nextBlock := by
  unfold ctrlHandleRequest at h
  split at h
  · simp only [Option.some.injEq] at h
    subst h
    exact ⟨signalled_self rfl, rfl, rfl, rfl, rfl, rfl⟩
  · simp only [Option.some.injEq] at h
    subst h
    split
    · exact ⟨bcast_signalled _ (by simp), rfl, rfl, rfl, rfl, rfl⟩
    · exact ⟨signalled_self rfl, rfl, rfl, rfl, rfl, rfl⟩
  · simp only [Option.some.injEq] at h
    subst h
    exact ⟨signalled_self rfl, rfl, rfl, rfl, rfl, rfl⟩
  · split at h
    · cases h
    · simp only at h
      split at h
      · simp only [Option.some.injEq] at h
        subst h
        exact ⟨signalled_self rfl, rfl, rfl, rfl, rfl, rfl⟩
      · simp only [Option.some.injEq] at h
        subst h
        split
        · exact ⟨bcast_signalled _ (by simp), rfl, rfl, rfl, rfl, rfl⟩
        · exact ⟨signalled_self rfl, rfl, rfl, rfl, rfl, rfl⟩

/-- A control request leaves the router alone, or has it make one change. -/
theorem request_router (h : ctrlHandleRequest cnf ctrl d req env = some d') :
    d'.router = d.router ∨ ∃ dst, req = .change dst ∧ routerChangeWaits d.router dst = false ∧
      d'.router = (glbRouterChangeDst cnf env d.router dst none).1 := by
  unfold ctrlHandleRequest at h
  cases req with
  | getinfo =>
    simp only [Option.some.injEq] at h
    exact Or.inl (h ▸ rfl)
  | getstat =>
    simp only [Option.some.injEq] at h
    subst h
    split <;> exact Or.inl rfl
  | malformed =>
    simp only [Option.some.injEq] at h
    exact Or.inl (h ▸ rfl)
  | change dst =>
    simp only at h
    split at h
    · cases h
    · rename_i hwait
      simp only [Bool.or_eq_true, not_or, Bool.not_eq_true] at hwait
      refine Or.inr ⟨dst, rfl, hwait.2, ?_⟩
      split at h
      · simp only [Option.some.injEq] at h
        exact h ▸ rfl
      · simp only [Option.some.injEq] at h
        subst h
        split <;> rfl

end Glb.Proofs.DaemonSteps
