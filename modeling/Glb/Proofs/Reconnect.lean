import Mathlib.Data.List.Dedup
import Glb.Proofs.RouterCalls

namespace Glb.Proofs.Reconnect
open Function Lib.Run PoolFrame PoolEvents DaemonSteps Ownership DaemonLedger Registry
open RouterFrame RouterRun RouterTable HeldSlot ConnectCall RouterCalls

/-- The daemon with a record of the connection in one block: the servers at which its
connect has failed, in turn, and the clock of the first of these failures. -/
structure Trail where
  daemon : Daemon
  failed : List SockAddr
  first : Option Int

def Trail.start (d : Daemon) : Trail := ⟨d, [], none⟩

variable {build : Build} {cnf : Cnf} {ctrl : Ctrl} {d d' : Daemon} {op : DaemonOp} {x y : Trail}
variable {claim : Owner → Option Fd} {home : Nat → Option Home} {r r' : Router} {a : SockAddr}
variable {b : Nat} {c c' : Conn} {F L : List SockAddr} {t : Int}

def trailStep (build : Build) (cnf : Cnf) (ctrl : Ctrl) (b : Nat) (x : Trail) (op : DaemonOp) : Option Trail :=
  (daemonStep build cnf ctrl x.daemon op).map fun d =>
    let moved := movedOn x.daemon d b op
    ⟨d, x.failed ++ (moved.map Prod.fst).toList, x.first.or (moved.map fun m => m.2.now)⟩

/-- From the first failed connect of the connection on, while it is in memory: no clock
reading with which a failure is reported is older, the next server is chosen within the
retry interval, and no request lists one of the failed servers. -/
def Steady (build : Build) (cnf : Cnf) (ctrl : Ctrl) (b : Nat) (x : Trail) (op : DaemonOp) : Prop :=
  ∀ y ∈ trailStep build cnf ctrl b x op, (y.daemon.heap b).isSome → ∀ t ∈ y.first,
    (∀ c ∈ reports op, t ≤ c) ∧
    (∀ m ∈ movedOn x.daemon y.daemon b op, m.2.choose.now ≤ t + routerRetryInterval cnf) ∧
    ∀ a ∈ mayList op, a ∉ x.failed

instance : Decidable (Steady build cnf ctrl b x op) := inferInstanceAs (Decidable (∀ y ∈ _, _))

section marks

/-- A failed server that is reported has its mark, if it is still listed. -/
theorem report_marks (h : Marks F t r) (hu : Unique r) (hn : t ≤ now) (cnf : Cnf) (a : SockAddr) :
    Marks (F ++ [a]) t (glbRouterDisconnect cnf now r a true) := by
  have hc := disconnect_cases cnf now r a true
  generalize glbRouterDisconnect cnf now r a true = q at hc ⊢
  cases hc with
  | unlisted hout =>
    intro e he ha
    rcases List.mem_append.mp ha with hF | hlast
    · exact h e he hF
    · exact absurd (List.mem_singleton.mp hlast) (hout e he)
  | failed hd ha => exact ha ▸ h.undo hu hd hn cnf

/-- The next server is none of those that have failed. -/
theorem chosen_unmarked (he : cnf.extra = 0) (hp : routerUsesMap cnf = false) (h : Marks F t r)
    (hc : env.now ≤ t + routerRetryInterval cnf) (hr : glbRouterChooseDst cnf env r hint = (r', some a)) :
    a ∉ F ∧ Marks F t r' := by
  have hfst : (routerChooseDst cnf env r hint).1 = r' := congrArg Prod.fst hr
  have hsnd : (routerChooseDst cnf env r hint).1.addrAt (routerChooseDst cnf env r hint).2 = some a :=
    congrArg Prod.snd hr
  cases hx : routerChooseDst cnf env r hint with
  | mk q ret =>
    rw [hx] at hfst hsnd
    subst hfst
    refine ⟨?_, h.same (choose_faults he hp hx)⟩
    cases ret with
    | none => cases hsnd
    | some i =>
      obtain ⟨a', ha', _, hout⟩ := choose_unmarked he hp h hc hx
      rw [hsnd, Option.some.injEq] at ha'
      exact ha' ▸ hout

end marks

section trail

/-- The record of a connection whose servers are among `L`. -/
structure Trying (b : Nat) (L : List SockAddr) (x : Trail) : Prop where
  registered : Registered x.daemon
  unique : Unique x.daemon.router
  table : ∀ a ∈ listing x.daemon.router, a ∈ L
  hand : ∀ a ∈ inHand x.daemon.listener, a ∈ L
  first : x.first = none ↔ x.failed = []
  begun : x.failed ≠ [] → b < x.daemon.nextBlock
  nodup : x.failed.Nodup
  listed : ∀ a ∈ x.failed, a ∈ L
  next : ∀ c, x.daemon.heap b = some c → c.dst.addr ∈ L ∧ c.dst.addr ∉ x.failed
  marks : (x.daemon.heap b).isSome → ∀ t ∈ x.first, Marks x.failed t x.daemon.router

/-- The list of servers grows by one of `L` that is not in it. -/
theorem grows (hn : F.Nodup) (hF : ∀ x ∈ F, x ∈ L) (hin : a ∈ L) (hout : a ∉ F) :
    (F ++ [a]).Nodup ∧ ∀ x ∈ F ++ [a], x ∈ L :=
  ⟨List.nodup_append_comm.mp (List.nodup_cons.mpr ⟨hout, hn⟩), List.forall_mem_append.mpr ⟨hF, by simpa using hin⟩⟩

theorem step_next (h : Step cnf ctrl d op d') : d.nextBlock ≤ d'.nextBlock := by
  cases h with
  | accept _ _ _ h => cases h <;> exact Nat.le_refl _
  | connected _ h => cases h <;> exact Nat.le_refl _
  | addConn _ h =>
    cases h with
    | noMemory => exact Nat.le_refl _
    | unsent => exact Nat.le_succ _
    | queued => exact Nat.le_succ _
  | pool h =>
    obtain ⟨_, _, _, _, rfl⟩ := h
    exact Nat.le_refl _
  | request h =>
    obtain ⟨_, _, _, _, _, hnext⟩ := request_frame h
    exact Nat.le_of_eq hnext.symm
  | drop dst => exact Nat.le_refl _
  | destroy => exact Nat.le_refl _

/-- Everything but the record itself. -/
theorem Trying.frame (ht : Trying b L x) (hl : ∀ a ∈ mayList op, a ∈ L)
    (h : daemonStep build cnf ctrl x.daemon op = some d) :
    Registered d ∧ Unique d.router ∧ (∀ a ∈ listing d.router, a ∈ L) ∧
      (∀ a ∈ inHand d.listener, a ∈ L) ∧ x.daemon.nextBlock ≤ d.nextBlock := by
  obtain ⟨claim, home, hL⟩ := ht.registered
  have hstep := step_cases hL h
  refine ⟨registered_step ht.registered h, (step_rewires hstep).unique ht.unique, ?_, ?_, step_next hstep⟩
  · intro a ha
    rcases (step_rewires hstep).listing ha with hold | hnew
    · exact ht.table a hold
    · exact hl a hnew
  · intro a ha
    rcases step_in_hand hstep ha with ⟨hsame, _⟩ | hlisted
    · exact ht.hand a (hsame ▸ ha)
    · exact ht.table a hlisted

/-- A step that does not move the connection on. -/
theorem Trying.stays (he : cnf.extra = 0) (hp : routerUsesMap cnf = false) (ht : Trying b L x)
    (hl : ∀ a ∈ mayList op, a ∈ L) (h : daemonStep build cnf ctrl x.daemon op = some d)
    (hs : (d.heap b).isSome → ∀ t ∈ x.first, (∀ c ∈ reports op, t ≤ c) ∧ ∀ a ∈ mayList op, a ∉ x.failed)
    (hm : movedOn x.daemon d b op = none) : Trying b L ⟨d, x.failed, x.first⟩ := by
  obtain ⟨hr, hu, htable, hhand, hnext⟩ := ht.frame hl h
  obtain ⟨claim, home, hL⟩ := ht.registered
  refine ⟨hr, hu, htable, hhand, ht.first, fun hne => Nat.lt_of_lt_of_le (ht.begun hne) hnext, ht.nodup,
    ht.listed, fun c hc => ?_, fun hb t htf => ?_⟩
  · cases step_whence hL h hc with
    | kept h0 ha _ => exact ha ▸ ht.next _ h0
    | moved _ hm' _ _ _ =>
      rw [hm] at hm'
      cases hm'
    | new hb hl =>
      refine ⟨ht.hand _ hl, fun hmem => ?_⟩
      have hlt := ht.begun (List.ne_nil_of_mem hmem)
      exact Nat.lt_irrefl _ (hb ▸ hlt)
  · obtain ⟨c, hc⟩ := Option.isSome_iff_exists.mp hb
    have hold : (x.daemon.heap b).isSome := by
      cases step_whence hL h hc with
      | kept h0 _ _ => exact Option.isSome_of_eq_some h0
      | moved h0 _ _ _ _ => exact Option.isSome_of_eq_some h0
      | new hnew _ =>
        -- a new connection has no record yet
        have hne : x.failed ≠ [] := fun hnil => by simp [ht.first.mpr hnil] at htf
        exact absurd (hnew ▸ ht.begun hne) (Nat.lt_irrefl _)
    obtain ⟨hclock, hlist⟩ := hs hb t htf
    exact (step_rewires (step_cases hL h)).marks he hp hclock hlist (ht.marks hold t htf)

theorem moved_blocks (h : movedOn d d' b op = some m) :
    (∃ c, d.heap b = some c) ∧ ∃ c', d'.heap b = some c' := by
  cases op with
  | write i fd env send =>
    simp only [movedOn] at h
    split at h
    · obtain ⟨c, hc, h⟩ := Option.bind_eq_some_iff.mp h
      obtain ⟨c', hc', _⟩ := Option.bind_eq_some_iff.mp h
      exact ⟨⟨c, hc⟩, ⟨c', hc'⟩⟩
    · cases h
  | _ => cases h

/-- A failed connect that is followed by another. -/
theorem Trying.moves (he : cnf.extra = 0) (hp : routerUsesMap cnf = false) (ht : Trying b L x)
    (hl : ∀ a ∈ mayList op, a ∈ L) (h : daemonStep build cnf ctrl x.daemon op = some d)
    (hm : movedOn x.daemon d b op = some (a, env))
    (hs : (d.heap b).isSome → ∀ t ∈ x.first.or (some env.now),
      (∀ c ∈ reports op, t ≤ c) ∧ env.choose.now ≤ t + routerRetryInterval cnf) :
    Trying b L ⟨d, x.failed ++ [a], x.first.or (some env.now)⟩ := by
  obtain ⟨hr, hu, htable, hhand, hnext⟩ := ht.frame hl h
  obtain ⟨claim, home, hL⟩ := ht.registered
  obtain ⟨⟨c0, hc0⟩, ⟨c', hc'⟩⟩ := moved_blocks hm
  cases step_whence hL h hc' with
  | kept _ _ hm' =>
    rw [hm] at hm'
    cases hm'
  | new hnew _ => exact absurd (hnew ▸ hL.below hc0) (Nat.lt_irrefl _)
  | @moved p c env' hc hm' hn hs' hr' =>
    rw [hm, Option.some.injEq, Prod.mk.injEq] at hm'
    obtain ⟨rfl, rfl⟩ := hm'
    obtain ⟨haL, haF⟩ := ht.next c hc
    have hnew : ∀ t ∈ x.first.or (some env.now),
        c'.dst.addr ∉ x.failed ++ [c.dst.addr] ∧ Marks (x.failed ++ [c.dst.addr]) t d.router := by
      intro t htf
      obtain ⟨hclock, hsoon⟩ := hs (Option.isSome_of_eq_some hc') t htf
      have hmarks : Marks x.failed t x.daemon.router := by
        cases hfirst : x.first with
        | none =>
          rw [ht.first.mp hfirst]
          exact fun _ _ hmem => absurd hmem List.not_mem_nil
        | some t' =>
          rw [hfirst, Option.some_or, Option.mem_some] at htf
          exact ht.marks (Option.isSome_of_eq_some hc) t (hfirst.trans (congrArg some htf))
      have hreport := report_marks hmarks ht.unique (hclock _ hn) cnf c.dst.addr
      exact hr' ▸ chosen_unmarked he hp hreport hsoon (Prod.ext rfl hs')
    have hclock : ∃ t, t ∈ x.first.or (some env.now) := by
      cases x.first <;> simp
    obtain ⟨t, htf⟩ := hclock
    obtain ⟨hnodup, hin⟩ := grows ht.nodup ht.listed haL haF
    refine ⟨hr, hu, htable, hhand, ?_, fun _ => ?_, hnodup, hin, fun e he => ?_, fun _ t htf => (hnew t htf).2⟩
    · simp
    · exact Nat.lt_of_lt_of_le (hL.below hc) hnext
    · have heq : c' = e := Option.some.inj (hc'.symm.trans he)
      exact heq ▸ ⟨ht.table _ (again_listed hs'), (hnew t htf).1⟩

theorem Trying.step (he : cnf.extra = 0) (hp : routerUsesMap cnf = false) (ht : Trying b L x)
    (hs : Steady build cnf ctrl b x op) (hl : ∀ a ∈ mayList op, a ∈ L)
    (h : trailStep build cnf ctrl b x op = some y) : Trying b L y := by
  have hsteady := hs y h
  obtain ⟨d, hd, rfl⟩ := Option.map_eq_some_iff.mp h
  cases hm : movedOn x.daemon d b op with
  | none =>
    simp only [hm, Option.map_none, Option.or_none] at hsteady
    have hstay := ht.stays he hp hl hd (fun hb t htf => ⟨(hsteady hb t htf).1, (hsteady hb t htf).2.2⟩) hm
    simpa [hm] using hstay
  | some m =>
    simp only [hm, Option.map_some, Option.mem_some, forall_eq'] at hsteady
    have hmove := ht.moves he hp hl hd hm (fun hb t htf => ⟨(hsteady hb t htf).1, (hsteady hb t htf).2.1⟩)
    simpa [hm] using hmove

theorem Trying.init (hn : pipes.Nodup) (hu : ∀ fd ∈ pipes, 0 < fd ∧ used fd = true) (b : Nat)
    (L : List SockAddr) : Trying b L (.start (Daemon.init pipes used Router.init)) where
  registered := registered_init hn hu Router.init
  unique := init_unique pipes used
  table := by simp [Trail.start, Daemon.init, listing, Router.init]
  hand := by simp [Trail.start, Daemon.init, inHand]
  first := by simp [Trail.start]
  begun := by simp [Trail.start]
  nodup := List.nodup_nil
  listed := by simp [Trail.start]
  next := by simp [Trail.start, Daemon.init]
  marks := by simp [Trail.start, Daemon.init]

end trail

section result

/-- The servers of the connection in block `b` so far: those that failed, then the one it
has now. One for which `socket ()` or `connect ()` failed at once is not among them. -/
def servers (b : Nat) (x : Trail) : List SockAddr :=
  x.failed ++ ((x.daemon.heap b).map fun c => c.dst.addr).toList

theorem Trying.servers (ht : Trying b L x) :
    (servers b x).Nodup ∧ ∀ a ∈ Reconnect.servers b x, a ∈ L := by
  unfold Reconnect.servers
  cases hc : x.daemon.heap b with
  | none => simpa using ⟨ht.nodup, ht.listed⟩
  | some c =>
    obtain ⟨hin, hout⟩ := ht.next c hc
    exact grows ht.nodup ht.listed hin hout

/-- An asynchronous connection waits for no server twice. Whatever the other connections,
the listener and the control thread do, the servers that one connection is sent to, as one
connect after the other fails, are different ones of those that requests have listed; so
after as many failures as there are such servers the client is turned away. -/
theorem reconnect_tries_each (he : cnf.extra = 0)
    (hp : cnf.policy = .least ∨ cnf.policy = .round ∨ cnf.policy = .single)
    (hn : pipes.Nodup) (hu : ∀ fd ∈ pipes, 0 < fd ∧ used fd = true)
    (hs : Along (trailStep build cnf ctrl b) (Steady build cnf ctrl b)
      (.start (Daemon.init pipes used Router.init)) ops)
    (h : exec (trailStep build cnf ctrl b) (.start (Daemon.init pipes used Router.init)) ops = some x) :
    (servers b x).Nodup ∧ (∀ a ∈ servers b x, a ∈ ops.filterMap mayList) ∧
      (servers b x).length ≤ (ops.filterMap mayList).dedup.length := by
  have hmap := plain_policy hp
  have hlabels : ∀ op ∈ ops, ∀ a ∈ mayList op, a ∈ ops.filterMap mayList := by
    intro op ho a ha
    exact List.mem_filterMap.mpr ⟨op, ho, ha⟩
  have keep : ∀ x op y, Trying b (ops.filterMap mayList) x →
      Steady build cnf ctrl b x op ∧ (∀ a ∈ mayList op, a ∈ ops.filterMap mayList) →
      trailStep build cnf ctrl b x op = some y → Trying b (ops.filterMap mayList) y :=
    fun _ _ _ ht hok => ht.step he hmap hok.1 hok.2
  have ht := exec_keeps keep (Trying.init hn hu b _) (along_labels hs hlabels) h
  obtain ⟨hnodup, hlisted⟩ := ht.servers
  refine ⟨hnodup, hlisted, ?_⟩
  have hsub : servers b x ⊆ (ops.filterMap mayList).dedup := fun a ha => List.mem_dedup.mpr (hlisted a ha)
  exact (List.subperm_of_subset hnodup hsub).length_le

/-- The only client is sent to A, and to B when that connect fails. -/
def failsAtA : List DaemonOp :=
  [addServer serverA, addServer serverB, .accept 6 clientAddr (-1) (chooseAt 100), .addConn true true,
    .ctl 0 ⟨.socket 7 EINPROGRESS, 100, fun _ => serverB⟩,
    .write 0 7 ⟨111, 101, chooseAt 101, .socket 8 EINPROGRESS, 101⟩ ⟨0, 0⟩]

def trailBy (b : Nat) (ops : List DaemonOp) : Trail :=
  (exec (trailStep .epoll leastConns noWdog b) (.start oneDaemon) ops).getD (.start oneDaemon)

theorem reconnect_tries_each_fails_at_a :
    servers 0 (trailBy 0 failsAtA) = [serverA, serverB] ∧ (servers 0 (trailBy 0 failsAtA)).Nodup := by
  have hrun : exec (trailStep .epoll leastConns noWdog 0) (.start oneDaemon) failsAtA =
      some (trailBy 0 failsAtA) := exec_getD _ (by decide +kernel)
  obtain ⟨hnodup, _⟩ := reconnect_tries_each (by decide) (by decide) (by simp) (by decide)
    (by decide +kernel) hrun
  exact ⟨by decide +kernel, hnodup⟩

end result

end Glb.Proofs.Reconnect
