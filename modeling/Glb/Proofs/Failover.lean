import Glb.Proofs.Interest
import Glb.Proofs.Serving
import Glb.Proofs.Stream

namespace Glb.Proofs.Failover
open Function Lib.Run PoolFrame PoolEvents DaemonSteps Ownership DaemonLedger Registry Blocks FdTable
open FdSteps Descriptors Serving Interest RouterRun Glb.Proofs.Stream

variable {build : Build} {cnf : Cnf} {ctrl : Ctrl} {d d' : Daemon} {w w' u : World} {op : DaemonOp}
variable {claim : Owner → Option Fd} {home : Nat → Option Home} {log l : List Ev} {p : EndPtr}
variable {i b : Nat} {c c' : Conn} {fd : Fd}

section closes

/-- What is closed on the way from one state to another stays closed. -/
def Shuts (s s' : Shared) : Prop :=
  ∃ l, s'.log = s.log ++ l ∧ ∀ fd, .close fd ∈ l → s'.isOpen fd = false

variable {s s' s'' : Shared}

theorem Shuts.same (hl : s'.log = s.log) : Shuts s s' :=
  ⟨[], by rw [hl, List.append_nil], fun _ hm => by cases hm⟩

/-- Calls that close nothing. -/
theorem Shuts.calls (hl : s'.log = s.log ++ l) (hc : ∀ fd, .close fd ∉ l) : Shuts s s' :=
  ⟨l, hl, fun fd hm => absurd hm (hc fd)⟩

/-- Between two states nothing is opened. -/
theorem Shuts.trans (h : Shuts s s') (h' : Shuts s' s'')
    (ho : ∀ fd, s'.isOpen fd = false → s''.isOpen fd = false) : Shuts s s'' := by
  obtain ⟨l, hl, hc⟩ := h
  obtain ⟨l', hl', hc'⟩ := h'
  refine ⟨l ++ l', by rw [hl', hl, List.append_assoc], fun fd hm => ?_⟩
  rcases List.mem_append.mp hm with hm | hm
  · exact ho fd (hc fd hm)
  · exact hc' fd hm

theorem closed_stays {f : Fd → Bool} (x : Fd) (h : f fd = false) : update f x false fd = false := by
  by_cases he : fd = x
  · rw [he, update_self]
  · rw [update_of_ne he, h]

theorem Shuts.close (h : Shuts s s') (x : Fd) (hl : s''.log = s'.log ++ [.close x])
    (ho : s''.isOpen = update s'.isOpen x false) : Shuts s s'' := by
  refine h.trans ⟨[.close x], hl, fun fd hm => ?_⟩ (fun fd hf => ho ▸ closed_stays x hf)
  have hfd : fd = x := by simpa using hm
  rw [ho, hfd, update_self]

/-- A step that closes nothing. -/
theorem Shuts.then (h : Shuts s s') (hl : s''.log = s'.log ++ l) (hc : ∀ fd, .close fd ∉ l)
    (ho : s''.isOpen = s'.isOpen) : Shuts s s'' :=
  h.trans (.calls hl hc) (fun _ hf => ho ▸ hf)

theorem shuts_bare (hb : bare w' = bare u) (h : Shuts s u.toShared) : Shuts s w'.toShared := by
  have hs : w'.toShared = u.toShared := congrArg (fun w => w.toShared) hb
  rw [hs]
  exact h

theorem gone_shuts (h : Shuts s w.toShared) (b : Nat) (c : Conn) (notify : Bool) :
    Shuts s (gone cnf w b c notify).toShared := by
  obtain ⟨l, hl, hc⟩ := h
  refine ⟨l ++ [.close c.dst.sock, .close c.inc.sock, .free b], ?_, fun fd hm => ?_⟩
  · rw [gone_log, hl, List.append_assoc]
  · have hopen : (gone cnf w b c notify).isOpen =
        update (update w.isOpen c.dst.sock false) c.inc.sock false := by cases notify <;> rfl
    rw [hopen]
    simp only [List.mem_append, List.mem_cons, Ev.close.injEq, List.not_mem_nil, or_false,
      reduceCtorEq] at hm
    rcases hm with hm | rfl | rfl
    · exact closed_stays _ (closed_stays _ (hc fd hm))
    · exact closed_stays _ (update_self _ _ _)
    · exact update_self _ _ _

theorem detached_shuts (h : Shuts s w.toShared) (c : Conn) : Shuts s (detached w c).toShared :=
  h.close c.dst.sock rfl rfl

theorem removals_shuts (hr : Removals cnf w u) (h : Shuts s w.toShared) : Shuts s u.toShared :=
  removals_keep (fun v => Shuts s v.toShared) hr (fun _ _ hb h => shuts_bare hb h)
    (fun _ b c _ _ h => gone_shuts h b c false) (fun _ _ c _ _ _ h => detached_shuts h c) h

theorem logs_shuts (w : World) (hc : ∀ fd, .close fd ∉ l) : Shuts w.toShared (logs w l).toShared :=
  .calls rfl hc

theorem async_shuts (h : poolHandleAsyncConn w p out = some (w', error)) :
    Shuts w.toShared w'.toShared := by
  obtain ⟨e, rfl | ⟨fd, rfl | rfl⟩⟩ := async_shape h
  · exact .same rfl
  · exact .same rfl
  · refine ⟨[.close fd], rfl, fun x hm => ?_⟩
    have hx : x = fd := by simpa using hm
    rw [hx]
    exact update_self _ _ _

theorem set_conn_end_shared (h : poolSetConnEnd build w p q = some w') :
    w'.log = w.log ∧ w'.isOpen = w.isOpen := by
  unfold poolSetConnEnd at h
  simp only [Option.bind_eq_bind, Option.bind_eq_some_iff, Option.some.injEq] at h
  obtain ⟨e, _, w1, h1, rfl⟩ := h
  have hb := fds_add_bare h1
  exact ⟨congrArg (fun w => w.log) hb, congrArg (fun w => w.isOpen) hb⟩

/-- `pool_handle_add_conn` closes what it does not keep. -/
theorem add_conn_shuts (h : poolHandleAddConn build cnf w b out now = some w') :
    Shuts w.toShared w'.toShared := by
  unfold poolHandleAddConn at h
  simp only [Option.bind_eq_bind, Option.bind_eq_some_iff, Prod.exists] at h
  obtain ⟨e, _, w1, error, h1, h⟩ := h
  have hs1 : Shuts w.toShared w1.toShared := by
    split at h1
    · exact async_shuts h1
    · simp only [Option.some.injEq, Prod.mk.injEq] at h1
      exact h1.1 ▸ .same rfl
  split at h
  · simp only [Option.bind_eq_some_iff, Option.some.injEq] at h
    obtain ⟨i, _, rfl⟩ := h
    have hs2 : Shuts w.toShared (w1.close i.sock).toShared := hs1.close i.sock rfl rfl
    exact hs2.then (l := [.free b]) rfl (by simp) rfl
  · simp only [Option.bind_eq_some_iff, Option.some.injEq] at h
    obtain ⟨w2, h2, w3, h3, rfl⟩ := h
    obtain ⟨hl2, ho2⟩ := set_conn_end_shared h2
    obtain ⟨hl3, ho3⟩ := set_conn_end_shared h3
    exact hs1.then (l := []) (by rw [List.append_nil]; exact hl3.trans hl2) (by simp)
      (ho3.trans ho2)

/-- `pool_handle_write` behind the completion of a connect. -/
theorem write_rest_shuts (hh : Held w b c) (hk : Kinds c) (t : Side)
    (h : writeRest build cnf b t send w = some w') : Shuts w.toShared w'.toShared := by
  unfold writeRest at h
  rw [deref_ptr hh.block, Option.bind_some] at h
  split at h
  · obtain ⟨⟨w1, ret⟩, h1, h2⟩ := Option.bind_eq_some_iff.mp h
    have hw : w1 = w' := Option.some.inj h2
    subst hw
    have hsent : Shuts w.toShared (logs w [sendEv b c t send]).toShared := logs_shuts w (by simp [sendEv])
    rcases send_data_cases hh hk t true h1 with ⟨_, _, hb⟩ | ⟨_, _, _, _, hb⟩
    · exact shuts_bare hb hsent
    · exact shuts_bare hb (gone_shuts hsent b c true)
  · exact Option.some.inj h ▸ .same rfl

/-- The one descriptor that may be closed and opened again in one step is that of a
server end without a connection. -/
theorem conn_failed_shuts (hh : Held w b c) (hk : Kinds c) (hi : c.dst.kind = .incomplete)
    (he : env.soError ≠ 0)
    (h : poolHandleConnComplete build cnf w (dstPtr b) env = some (w', ret)) :
    ∃ l, w'.log = w.log ++ l ∧ ∀ fd, .close fd ∈ l → w'.isOpen fd = false ∨
      (fd = c.dst.sock ∧ ∀ c', w'.heap b = some c' → c'.dst.kind = .incomplete) := by
  obtain ⟨_, ⟨_, hb⟩ | ⟨addr, w1, _, hb, h2⟩⟩ := conn_failed_steps hh hk hi he h
  · have hput : Shuts w.toShared (putConn (rerouted cnf w c env) b (released c)).toShared := .same rfl
    obtain ⟨l, hl, hc⟩ := shuts_bare hb (gone_shuts hput b (released c) false)
    exact ⟨l, hl, fun fd hm => Or.inl (hc fd hm)⟩
  · have hlog : w1.log = w.log ++ [.close c.dst.sock] := congrArg (fun w => w.log) hb
    have hkind : ∀ c', w'.heap b = some c' → c'.dst.kind = .incomplete := by
      intro c' hc'
      rcases add_conn_cases (put_conn_heap _ _ _) h2 with ⟨_, m, _, hw⟩ | ⟨w3, c3, hsock, hw⟩
      · have hnone : w'.heap b = none := (congrArg (fun w => w.heap b) hw).trans (update_self _ _ _)
        rw [hnone] at hc'
        cases hc'
      · have hsome : w'.heap b = some (registeredConn c3) := by
          have hheap2 : w'.heap = (attached w3 b c3).heap := congrArg (fun w => w.heap) hw
          rw [hheap2, attached_heap, update_self]
          rfl
        rw [hsome, Option.some.injEq] at hc'
        subst hc'
        rcases hsock with ⟨_, _, rfl⟩ | ⟨_, _, _, _, _, rfl⟩ <;> exact hi
    obtain ⟨l, hl, hc⟩ := add_conn_shuts h2
    have hl2 : w'.log = w1.log ++ l := hl
    refine ⟨.close c.dst.sock :: l, by rw [hl2, hlog, List.append_assoc]; rfl, fun fd hm => ?_⟩
    rcases List.mem_cons.mp hm with hm | hm
    · exact Or.inr ⟨Ev.close.inj hm, hkind⟩
    · exact Or.inl (hc fd hm)

theorem write_shuts (hh : Held w b c) (hk : Kinds c) (t : Side)
    (h : poolHandleWrite build cnf w (side c t).sock env send = some w') :
    ∃ l, w'.log = w.log ++ l ∧ ∀ fd, .close fd ∈ l → w'.isOpen fd = false ∨
      (fd = c.dst.sock ∧ ∀ c', w'.heap b = some c' → c'.dst.kind = .incomplete) := by
  rw [write_eq build cnf hh] at h
  have hrest : Shuts w.toShared w'.toShared → ∃ l, w'.log = w.log ++ l ∧ ∀ fd, .close fd ∈ l →
      w'.isOpen fd = false ∨
        (fd = c.dst.sock ∧ ∀ c', w'.heap b = some c' → c'.dst.kind = .incomplete) := by
    rintro ⟨l, hl, hc⟩
    exact ⟨l, hl, fun fd hm => Or.inl (hc fd hm)⟩
  split at h
  · rename_i hi
    obtain ⟨rfl, hid⟩ := kind_incomplete hk hi
    obtain ⟨⟨w1, ret⟩, h1, h⟩ := Option.bind_eq_some_iff.mp h
    by_cases he : env.soError = 0
    · obtain ⟨rfl, hb⟩ := conn_succeeded hh.block he h1
      have hh1 : Held w1 b (completed c) :=
        held_of_bare hb (held_put hh (by intro t; cases t <;> rfl))
      have hk1 : Kinds (completed c) := ⟨hk.1, by simp [completed]⟩
      have hlog : w1.toShared.log = w.log := congrArg (fun w => w.log) hb
      obtain ⟨l, hl, hc⟩ := write_rest_shuts hh1 hk1 .dst h
      exact hrest ⟨l, by rw [hl, hlog], hc⟩
    · obtain ⟨hne, _⟩ := conn_failed send hh hk hid he h1
      obtain ⟨l, hl, hc⟩ := conn_failed_shuts hh hk hid he h1
      simp only [hne, ne_eq, not_false_eq_true, ↓reduceIte, Option.some.injEq] at h
      subst h
      exact ⟨l, hl, hc⟩
  · rw [Option.bind_some] at h
    exact hrest (write_rest_shuts hh hk t h)

theorem read_shuts (hf : ReadFate cnf w b c t recv send u) : Shuts w.toShared u.toShared := by
  cases hf with
  | full _ => exact .same rfl
  | nothing _ => exact logs_shuts w (by simp [recvEv])
  | closed _ _ => exact gone_shuts (logs_shuts w (by simp [recvEv])) b c true
  | detach _ _ _ => exact detached_shuts (logs_shuts w (by simp [recvEv])) c
  | passed _ _ _ _ _ _ => exact .calls rfl (by simp [recvEv, sendEv])
  | broken bytes _ _ _ _ =>
    refine gone_shuts ?_ b (filled c t bytes) true
    exact .calls rfl (by simp [recvEv, sendEv])

theorem ctl_shuts (L : Ledger (seen v i w) claim home) (h : poolReadCtl build cnf w env = some w') :
    Shuts w.toShared w'.toShared := by
  obtain ⟨u, hf, hb⟩ := ctl_fate L h
  have hpop : ∀ {w1 q}, bare w1 = bare (popped w q) → Shuts w.toShared w1.toShared := by
    intro w1 q hw
    exact .same (congrArg (fun w => w.log) hw)
  obtain ⟨st, hread⟩ := ctl_cases h
  cases hread with
  | addConn _ h2 =>
    have hs := add_conn_shuts h2
    exact hs
  | stats _ => exact .same rfl
  | dropDst hp _ =>
    cases hf with
    | lost env hp' _ _ _ => cases hp.symm.trans hp'
    | added env hp' _ _ => cases hp.symm.trans hp'
    | stats env hp' => cases hp.symm.trans hp'
    | shutdown env hp' _ _ => cases hp.symm.trans hp'
    | dropped env hp' hw hr => exact shuts_bare hb (removals_shuts hr (hpop hw))
  | shutdown hp _ =>
    cases hf with
    | lost env hp' _ _ _ => cases hp.symm.trans hp'
    | added env hp' _ _ => cases hp.symm.trans hp'
    | stats env hp' => cases hp.symm.trans hp'
    | dropped env hp' _ _ => cases hp.symm.trans hp'
    | @shutdown _ _ u1 env hp' hw hr =>
      exact shuts_bare hb ((removals_shuts hr (hpop hw)).close u1.ctlRecv rfl rfl)

theorem close_shuts (e : Daemon) (hl : e.log = d.log) (x : Fd) :
    Shuts d.toShared (e.close x).toShared :=
  have he : Shuts d.toShared e.toShared := .same hl
  he.close x rfl rfl

theorem accept_shuts (h : listenerAccept cnf d x addr sock env = some d') :
    Shuts d.toShared d'.toShared := by
  have hopen : ∀ e : Daemon, e.log = d.log → Shuts d.toShared (e.close x).toShared :=
    fun e he => close_shuts e he x
  unfold listenerAccept at h
  split at h
  · cases h
  · simp only at h
    split at h
    · exact Option.some.inj h ▸ hopen _ rfl
    · split at h
      · split at h
        · exact Option.some.inj h ▸ .same rfl
        · exact Option.some.inj h ▸ hopen _ rfl
      · split at h
        · split at h
          · cases h
          · exact Option.some.inj h ▸ hopen _ rfl
        · split at h
          · cases h
          · split at h
            · exact Option.some.inj h ▸ .same rfl
            · rename_i r _
              let e : Daemon := { (d.opened x).opened sock with router := routerConnectEnd r }
              have h1 : Shuts d.toShared (e.close sock).toShared := close_shuts e rfl sock
              exact Option.some.inj h ▸ h1.close x rfl rfl

theorem undo_shuts (cnf : Cnf) (hl : d'.log = d.log) (inc sock : Fd) (dst : SockAddr) :
    Shuts d.toShared (listenerUndo cnf d' inc sock dst).toShared := by
  have h1 : Shuts d.toShared (d'.close sock).toShared := close_shuts d' hl sock
  exact h1.close inc rfl rfl

/-- What is closed in one step is not open after it, but for a server end that
got a new socket. -/
theorem step_shuts (L : Ledger (view d) claim home) (h : daemonStep build cnf ctrl d op = some d') :
    ∃ l, d'.log = d.log ++ l ∧ ∀ fd, .close fd ∈ l → d'.isOpen fd = false ∨
      ∃ b c, Serves d b c ∧ fd = c.dst.sock ∧
        ∀ c', d'.heap b = some c' → c'.dst.kind = .incomplete := by
  have plain : Shuts d.toShared d'.toShared → ∃ l, d'.log = d.log ++ l ∧ ∀ fd, .close fd ∈ l →
      d'.isOpen fd = false ∨ ∃ b c, Serves d b c ∧ fd = c.dst.sock ∧
        ∀ c', d'.heap b = some c' → c'.dst.kind = .incomplete := by
    rintro ⟨l, hl, hc⟩
    exact ⟨l, hl, fun fd hm => Or.inl (hc fd hm)⟩
  cases op with
  | accept fd addr sock env => exact plain (accept_shuts h)
  | connected error now env =>
    obtain ⟨inc, addr, sock, hint, i, _, hf⟩ := connected_cases h
    refine plain ?_
    cases hf with
    | retry r j _ => exact .same rfl
    | failed r _ =>
      let e : Daemon := { d with router := routerConnectEnd r, listener := .idle }
      have h1 : Shuts d.toShared (e.close sock).toShared := close_shuts e rfl sock
      exact h1.close inc rfl rfl
    | done dst _ => exact .same rfl
    | pending dst _ => exact close_shuts d rfl sock
  | addConn malloc write =>
    obtain ⟨inc, addr, sock, dst, complete, _, hf⟩ := add_cases h
    refine plain ?_
    cases hf with
    | noMemory => exact undo_shuts cnf rfl inc sock dst
    | unsent => exact undo_shuts cnf rfl inc sock dst
    | queued => exact .same rfl
  | ctl i env =>
    have hon : d.onPool i (fun w => poolReadCtl build cnf w env) = some d' := h
    obtain ⟨p, w', hp, _, hw, rfl⟩ := on_pool hon
    exact plain (ctl_shuts (pool_ledger L hp) hw)
  | read i fd recv send =>
    have hon : d.onPool i (fun w => (poolHandleRead build cnf w fd recv send).map Prod.fst) =
      some d' := h
    obtain ⟨p, w', hp, _, hw, rfl⟩ := on_pool hon
    obtain ⟨u, hf, hb⟩ := read_fate (w := d.world p) (pool_ledger L hp) hw
    cases hf with
    | read hh hk hf => exact plain (shuts_bare hb (read_shuts hf))
  | write i fd env send =>
    have hon : d.onPool i (fun w => poolHandleWrite build cnf w fd env send) = some d' := h
    obtain ⟨p, w', hp, _, hw, rfl⟩ := on_pool hon
    obtain ⟨u, hf, _⟩ := write_fate (w := d.world p) (pool_ledger L hp) hw
    cases hf with
    | @write b c t _ _ _ hh hk _ =>
      obtain ⟨l, hl, hc⟩ := write_shuts hh hk t hw
      refine ⟨l, hl, fun fd hm => (hc fd hm).imp_right ?_⟩
      rintro ⟨hfd, hkind⟩
      exact ⟨b, c, ⟨i, p, hp, hh⟩, hfd, hkind⟩
  | request req env =>
    obtain ⟨_, _, _, hl, _⟩ := request_frame h
    exact plain (.same hl)
  | drop dst =>
    simp only [daemonStep, Option.some.injEq] at h
    exact plain (h ▸ .same rfl)
  | destroy =>
    simp only [daemonStep, Option.some.injEq] at h
    exact plain (h ▸ .same rfl)

end closes

section sockets

/-- What the sockets behind the descriptors have taken from the end `p` once the
event has happened. -/
def Ev.taken (p : EndPtr) (f : Fd → List UInt8) : Ev → Fd → List UInt8
  | .send q sock _ bytes => if q = p then update f sock (f sock ++ bytes) else f
  | .close fd => update f fd []
  | _ => f

/-- What the socket that a descriptor stands for has taken from the end `p`. A
descriptor stands for one socket from one `close ()` to the next. -/
def taken (log : List Ev) (p : EndPtr) : Fd → List UInt8 := log.foldl (Ev.taken p) fun _ => []

theorem taken_append (log l : List Ev) (p : EndPtr) :
    taken (log ++ l) p = l.foldl (Ev.taken p) (taken log p) := List.foldl_append

/-- Where nothing is accepted, a socket has taken what it had or is closed. -/
theorem fold_quiet (f : Fd → List UInt8) (fd : Fd) (h : accepted l p = []) :
    l.foldl (Ev.taken p) f fd = f fd ∨ (.close fd ∈ l ∧ l.foldl (Ev.taken p) f fd = []) := by
  induction l generalizing f with
  | nil => exact Or.inl rfl
  | cons ev l ih =>
    have hsplit : Ev.accepted p ev = [] ∧ accepted l p = [] := by
      simpa [accepted] using h
    rw [List.foldl_cons]
    have hstep : Ev.taken p f ev fd = f fd ∨ (ev = .close fd ∧ Ev.taken p f ev fd = []) := by
      cases ev with
      | send q sock len bytes =>
        left
        by_cases hq : q = p
        · have hnil : bytes = [] := by simpa [Ev.accepted, hq] using hsplit.1
          simp only [Ev.taken, hq, ↓reduceIte, hnil, List.append_nil, update_eq_self]
        · simp only [Ev.taken, hq, ↓reduceIte]
      | close x =>
        by_cases hx : fd = x
        · exact Or.inr ⟨by rw [hx], by rw [hx]; exact update_self _ _ _⟩
        · exact Or.inl (update_of_ne hx _ _)
      | recv q sock off len bytes => exact Or.inl rfl
      | free b => exact Or.inl rfl
    rcases ih (Ev.taken p f ev) hsplit.2 with hsame | ⟨hm, hnil⟩
    · rcases hstep with h1 | ⟨rfl, h1⟩
      · exact Or.inl (hsame.trans h1)
      · exact Or.inr ⟨List.mem_cons_self, hsame.trans h1⟩
    · exact Or.inr ⟨List.mem_cons_of_mem _ hm, hnil⟩

theorem fold_open (f : Fd → List UInt8) (h : accepted l p = []) (hc : .close fd ∉ l) :
    l.foldl (Ev.taken p) f fd = f fd :=
  (fold_quiet f fd h).resolve_right fun hm => hc hm.1

theorem fold_nil (f : Fd → List UInt8) (h : accepted l p = []) (hf : f fd = []) :
    l.foldl (Ev.taken p) f fd = [] :=
  (fold_quiet f fd h).elim (fun he => he.trans hf) And.right

theorem silent_accepted (hl : Silent l) (p : EndPtr) : accepted l p = [] := by
  refine (elsewhere fun ev hm hq => ?_).2
  rw [silent_port hl ev hm] at hq
  cases hq

/-- All that was accepted from the end `p` was taken by one socket. -/
structure Single (log : List Ev) (p : EndPtr) (fd : Fd) : Prop where
  own : taken log p fd = accepted log p
  other : ∀ {x}, x ≠ fd → taken log p x = []

end sockets

/-- While its server end is not known to be connected, what a client sends is not
taken by the server's socket. -/
def HoldsBack (d : Daemon) (op : DaemonOp) : Prop :=
  ∀ r ∈ dataRead op, ∀ e ∈ readEnd d r.pool r.fd, e.kind = .incomplete → r.avail ≠ [] → e.total < poolBufSize →
    r.send.ret = 0

instance : Decidable (HoldsBack d op) := inferInstanceAs (Decidable (∀ r ∈ dataRead op, _))

section calls

/-- The calls that one step makes. -/
inductive Calls (d d' : Daemon) : List Ev → Prop
  | quiet {rest} (hl : Silent rest) : Calls d d' rest
  | nothing {b c s rest} (hl : Silent rest) : Calls d d' (recvEv b c s [] :: rest)
  | pass {b c s bytes send rest} (hh : Serves d b c) (h0 : 0 < bytes.length)
    (hroom : (side c s).total + bytes.length ≤ poolBufSize)
    (hq : (side c s).kind = .incomplete → sendLen (side (filled c s bytes) s) send = 0)
    (hl : Silent rest) :
    Calls d d' (recvEv b c s bytes :: sendEv b (filled c s bytes) s send :: rest)
  | flush {b c s send rest} (hh : Serves d b c)
    (hd : s = .dst → ∀ c', d'.heap b = some c' → c'.dst.kind ≠ .incomplete)
    (hl : Silent rest) : Calls d d' (sendEv b (settled c s) s send :: rest)

theorem gone_silent (b : Nat) (c : Conn) :
    Silent [.close c.dst.sock, .close c.inc.sock, .free b] := by simp [Silent]

theorem read_calls (hp : d.pools[i]? = some x) (hh : Held (d.world x) b c)
    (hok : HoldsBack d (.read i (side c s.other).sock recv send))
    (hf : ReadFate cnf (d.world x) b c s recv send u) :
    ∃ l, u.log = d.log ++ l ∧ Calls d d' l := by
  have hserves : Serves d b c := ⟨i, x, hp, hh⟩
  cases hf with
  | full _ => exact ⟨[], (List.append_nil _).symm, .quiet (by simp [Silent])⟩
  | nothing _ => exact ⟨[recvEv b c s []], rfl, .nothing (by simp [Silent])⟩
  | closed _ _ =>
    refine ⟨recvEv b c s [] :: [.close c.dst.sock, .close c.inc.sock, .free b], ?_,
      .nothing (gone_silent b c)⟩
    rw [gone_log]
    simp [logs, Daemon.world]
  | detach _ _ _ =>
    refine ⟨recvEv b c s [] :: [.close c.dst.sock], ?_, .nothing (silent_close _)⟩
    rw [detached_log]
    simp [logs, Daemon.world]
  | passed avail bytes hr hb h0 hroom =>
    refine ⟨_, rfl, .pass hserves h0 hroom (fun hi => ?_) (by simp [Silent])⟩
    subst hr
    have hend := held_read_end hp hh s
    have htotal : (side c s).total < poolBufSize := by omega
    have havail : avail ≠ [] := by
      intro he
      rw [← hb, he] at h0
      simp [received] at h0
    have hret : send.ret = 0 := hok _ rfl _ hend hi havail htotal
    simp [sendLen, hret]
  | broken bytes h0 hroom hki hn =>
    refine ⟨recvEv b c s bytes :: sendEv b (filled c s bytes) s send ::
      [.close (filled c s bytes).dst.sock, .close (filled c s bytes).inc.sock, .free b], ?_,
      .pass hserves h0 hroom (fun hi => absurd hi hki) (gone_silent b _)⟩
    rw [gone_log]
    simp [logs, putConn, Daemon.world]

theorem write_calls (hp : d.pools[i]? = some x) (hh : Held (d.world x) b c)
    (hf : WriteFate cnf (d.world x) b c s env send u) (hu : d'.heap = u.heap) :
    ∃ l, u.log = d.log ++ l ∧ Calls d d' l := by
  have hserves : Serves d b c := ⟨i, x, hp, hh⟩
  -- once bytes were sent, the server end is connected
  have hsettled : s = .dst → (settled c s).dst.kind ≠ .incomplete := by
    rintro rfl
    exact settled_complete c
  cases hf with
  | drained _ => exact ⟨[], (List.append_nil _).symm, .quiet (by simp [Silent])⟩
  | passed h0 =>
    refine ⟨[sendEv b (settled c s) s send], rfl, .flush hserves (fun hs c' hc => ?_) (by simp [Silent])⟩
    rw [hu, put_conn_heap, Option.some.injEq] at hc
    rw [← hc]
    have hkind := (sent_conn_fixed (settled c s) s send true .dst).2.1
    exact fun he => hsettled hs (hkind.symm.trans he)
  | broken h0 =>
    refine ⟨sendEv b (settled c s) s send ::
      [.close (settled c s).dst.sock, .close (settled c s).inc.sock, .free b], ?_,
      .flush hserves (fun _ c' hc => ?_) (gone_silent b _)⟩
    · rw [gone_log]
      simp [logs, putConn, Daemon.world]
    · rw [hu, gone_heap, update_self] at hc
      cases hc
  | refused _ _ _ => exact ⟨_, gone_log _ _ _ _ _, .quiet (gone_silent b _)⟩
  | moved addr fd _ _ _ _ _ => exact ⟨[.close c.dst.sock], rfl, .quiet (silent_close _)⟩
  | abandoned addr m _ _ _ hl =>
    refine ⟨.close c.dst.sock :: m, ?_, .quiet fun ev hm => ?_⟩
    · simp [lost, logs, detached_log, rerouted, Daemon.world]
    · rcases List.mem_cons.mp hm with rfl | hm
      · exact Or.inl ⟨_, rfl⟩
      · exact hl ev hm

theorem removals_silent (hr : Removals cnf w u) : ∃ l, u.log = w.log ++ l ∧ Silent l := by
  refine removals_keep (fun v => ∃ l, v.log = w.log ++ l ∧ Silent l) hr ?_ ?_ ?_
    ⟨[], (List.append_nil _).symm, by simp [Silent]⟩
  · rintro v v' hb ⟨l, hl, hs⟩
    exact ⟨l, (congrArg (fun w => w.log) hb).trans hl, hs⟩
  · rintro v b c _ _ ⟨l, hl, hs⟩
    refine ⟨l ++ [.close c.dst.sock, .close c.inc.sock, .free b], ?_, fun ev hm => ?_⟩
    · rw [gone_log, hl, List.append_assoc]
    · exact (List.mem_append.mp hm).elim (hs ev) (gone_silent b c ev)
  · rintro v b c _ _ _ ⟨l, hl, hs⟩
    refine ⟨l ++ [.close c.dst.sock], ?_, fun ev hm => ?_⟩
    · rw [detached_log, hl, List.append_assoc]
    · exact (List.mem_append.mp hm).elim (hs ev) (silent_close c.dst.sock ev)

theorem fate_calls (hp : d.pools[i]? = some x) (hok : HoldsBack d op)
    (hf : Fate cnf i (d.world x) op u) (hu : d'.heap = u.heap) :
    ∃ l, u.log = d.log ++ l ∧ Calls d d' l := by
  cases hf with
  | read hh hk hf => exact read_calls hp hh hok hf
  | write hh hk hf => exact write_calls hp hh hf hu
  | lost env _ _ _ hl => exact ⟨_, rfl, .quiet hl⟩
  | @added b c q w1 c1 env _ _ hs =>
    have hlog : w1.log = d.log := by
      rcases hs with ⟨_, rfl, _⟩ | ⟨_, _, _, _, rfl, _⟩ <;> rfl
    exact ⟨[], hlog.trans (List.append_nil _).symm, .quiet (by simp [Silent])⟩
  | stats env _ => exact ⟨[], (List.append_nil _).symm, .quiet (by simp [Silent])⟩
  | @dropped a q w1 u env _ hw hr =>
    obtain ⟨l, hl, hs⟩ := removals_silent hr
    have hw1 : w1.log = d.log := congrArg (fun w => w.log) hw
    exact ⟨l, by rw [hl, hw1], .quiet hs⟩
  | @shutdown q w1 u env _ hw hr =>
    obtain ⟨l, hl, hs⟩ := removals_silent hr
    have hw1 : w1.log = d.log := congrArg (fun w => w.log) hw
    refine ⟨l ++ [.close u.ctlRecv], ?_, .quiet fun ev hm => ?_⟩
    · have hend : (ended u).log = u.log ++ [.close u.ctlRecv] := rfl
      rw [hend, hl, hw1, List.append_assoc]
    · exact (List.mem_append.mp hm).elim (hs ev) (silent_close _ ev)

theorem step_calls (hs : Step cnf ctrl d op d') (hok : HoldsBack d op) :
    ∃ l, d'.log = d.log ++ l ∧ Calls d d' l := by
  have hnil : ∀ {e : Daemon}, e.log = d.log → ∃ l, e.log = d.log ++ l ∧ Calls d d' l := fun he =>
    ⟨[], he.trans (List.append_nil _).symm, .quiet (by simp [Silent])⟩
  have hclose : ∀ {e : Daemon} (x : Fd), e.log = d.log →
      ∃ l, (e.close x).log = d.log ++ l ∧ Calls d d' l := fun {e} x he =>
    ⟨[.close x], congrArg (· ++ [Ev.close x]) he, .quiet (silent_close x)⟩
  have htwo : ∀ {e : Daemon} (x y : Fd), e.log = d.log →
      ∃ l, ((e.close x).close y).log = d.log ++ l ∧ Calls d d' l := by
    intro e x y he
    refine ⟨[.close x, .close y], ?_, .quiet (by simp [Silent])⟩
    have hlog : ((e.close x).close y).log = e.log ++ [.close x] ++ [.close y] := rfl
    rw [hlog, he, List.append_assoc]
    rfl
  cases hs with
  | accept _ _ _ h =>
    cases h with
    | turned l hl => exact ⟨l, rfl, .quiet hl⟩
    | none r l hl _ => exact ⟨l, rfl, .quiet hl⟩
    | noneSync r l hl _ => exact ⟨l, rfl, .quiet hl⟩
    | chosen r dst _ => exact hnil rfl
    | connecting r i sock _ _ _ => exact hnil rfl
  | @connected error now env inc addr sock hint i _ _ h =>
    cases h with
    | retry r j _ => exact hnil rfl
    | failed r _ => exact htwo sock inc rfl
    | done dst _ => exact hnil rfl
    | pending dst _ => exact hclose (e := d) sock rfl
  | @addConn malloc write inc addr sock dst complete _ _ h =>
    cases h with
    | noMemory => exact htwo (e := d) sock inc rfl
    | unsent => exact htwo (e := allocated d (newConn inc addr sock dst complete)) sock inc rfl
    | queued => exact hnil rfl
  | @pool _ _ i x u w' h =>
    obtain ⟨hp, _, hf, hb, rfl⟩ := h
    have hlog : w'.log = u.log := congrArg (fun w => w.log) hb
    have hheap : (d.put i w').heap = u.heap := congrArg (fun w => w.heap) hb
    obtain ⟨l, hl, hc⟩ := fate_calls hp hok hf hheap
    exact ⟨l, hlog.trans hl, hc⟩
  | request h =>
    obtain ⟨_, _, _, hl, _⟩ := request_frame h
    exact hnil hl
  | drop dst => exact hnil rfl
  | destroy => exact hnil rfl

/-- In one step the server's socket of a connection is given bytes. -/
structure Sends (d d' : Daemon) (l : List Ev) (b : Nat) (c : Conn) : Prop where
  serves : Serves d b c
  shape : ∃ pre len bytes post, l = pre ++ .send (dstPtr b) c.dst.sock len bytes :: post ∧
    accepted pre (dstPtr b) = [] ∧ accepted post (dstPtr b) = [] ∧ ∀ fd, .close fd ∉ pre
  kind : c.dst.kind ≠ .incomplete ∨ ∀ c', d'.heap b = some c' → c'.dst.kind ≠ .incomplete
  front : accepted (d.log ++ l) (dstPtr b) <+: arrived (d.log ++ l) (dstPtr b)

theorem accepted_cons (ev : Ev) (l : List Ev) (p : EndPtr) :
    accepted (ev :: l) p = Ev.accepted p ev ++ accepted l p := List.flatMap_cons

theorem arrived_silent (hl : Silent l) (p : EndPtr) : arrived l p = [] := by
  refine (elsewhere fun ev hm hq => ?_).1
  rw [silent_port hl ev hm] at hq
  cases hq

/-- What has been accepted comes first in what has arrived. -/
theorem flow_front (hf : Flow log p e) (hl : Silent l) : accepted (log ++ l) p <+: arrived (log ++ l) p := by
  rw [accepted_append, arrived_append, silent_accepted hl, arrived_silent hl, List.append_nil,
    List.append_nil, ← hf.conserved]
  exact List.prefix_append _ _

theorem calls_sends (S : Streams d.heap d.log n) (hc : Calls d d' l) (b : Nat) :
    accepted l (dstPtr b) = [] ∨ ∃ c, Sends d d' l b c := by
  have hother : ∀ {b' s len bytes sock}, ¬ (b' = b ∧ s = .dst) →
      Ev.accepted (dstPtr b) (.send (ptr b' s) sock len bytes) = [] := by
    intro b' s len bytes sock hne
    have hp : ptr b' s ≠ dstPtr b := fun he => hne (ptr_inj (show ptr b' s = ptr b .dst from he))
    simp [Ev.accepted, hp]
  cases hc with
  | quiet hl => exact Or.inl (silent_accepted hl _)
  | nothing hl =>
    left
    rw [accepted_cons, silent_accepted hl]
    rfl
  | @pass b' c s bytes send rest hh h0 hroom hq hl =>
    by_cases hb : b' = b ∧ s = .dst
    · obtain ⟨rfl, rfl⟩ := hb
      by_cases hi : c.dst.kind = .incomplete
      · left
        have hn := hq hi
        rw [accepted_cons, accepted_cons, silent_accepted hl]
        simp [recvEv, sendEv, Ev.accepted, hn]
      · right
        have hfill : Flow (d.log ++ [recvEv b' c .dst bytes]) (dstPtr b') (filled c .dst bytes).dst :=
          (S.ends (serves_block hh) .dst).recv _ _ _ bytes h0 hroom
        have hsent := flow_sent (s := .dst) hfill send
        refine ⟨c, hh, ⟨[recvEv b' c .dst bytes], _, _, rest, rfl, rfl, silent_accepted hl _, ?_⟩,
          Or.inl hi, ?_⟩
        · simp [recvEv]
        · have hfront := flow_front hsent hl
          rw [List.append_assoc, List.append_assoc] at hfront
          exact hfront
    · left
      rw [accepted_cons, accepted_cons, silent_accepted hl]
      have hs' : Ev.accepted (dstPtr b) (sendEv b' (filled c s bytes) s send) = [] := hother hb
      rw [hs']
      rfl
  | @flush b' c s send rest hh hd hl =>
    by_cases hb : b' = b ∧ s = .dst
    · obtain ⟨rfl, rfl⟩ := hb
      right
      have hset : Flow d.log (dstPtr b') (settled c .dst).dst :=
        (S.ends (serves_block hh) .dst).same (same_bytes_settled c .dst .dst)
      have hsent := flow_sent (s := .dst) hset send
      have hsock : (settled c .dst).dst.sock = c.dst.sock := settled_socks c .dst .dst
      have hev : sendEv b' (settled c .dst) .dst send = .send (dstPtr b') c.dst.sock
          ((settled c .dst).dst.total - (settled c .dst).dst.sent)
          ((settled c .dst).dst.pending.take (sendLen (settled c .dst).dst send)) := by
        rw [← hsock]
        rfl
      refine ⟨c, hh, ⟨[], _, _, rest, congrArg (· :: rest) hev, rfl, silent_accepted hl _, by simp⟩,
        Or.inr (hd rfl), ?_⟩
      · have hfront := flow_front hsent hl
        rw [List.append_assoc] at hfront
        exact hfront
    · left
      rw [accepted_cons, silent_accepted hl]
      have hs' : Ev.accepted (dstPtr b) (sendEv b' (settled c s) s send) = [] := hother hb
      rw [hs']
      rfl

end calls

/-- No connection has given bytes to two sockets. -/
structure Whole (d : Daemon) : Prop where
  flowing : Flowing d
  early : ∀ {b c}, d.heap b = some c → c.dst.kind = .incomplete → accepted d.log (dstPtr b) = []
  single : ∀ {b c}, d.heap b = some c → Single d.log (dstPtr b) c.dst.sock
  seated : ∀ {b c}, d.heap b = some c → accepted d.log (dstPtr b) ≠ [] → Serves d b c
  either : ∀ b fd, taken d.log (dstPtr b) fd = [] ∨
    taken d.log (dstPtr b) fd = accepted d.log (dstPtr b)
  front : ∀ b, accepted d.log (dstPtr b) <+: arrived d.log (dstPtr b)

section step

/-- A block whose server has been given bytes is not new. -/
theorem taken_origin (W : Whole d) (L : Ledger (view d) claim home)
    (hne : accepted d.log (dstPtr b) ≠ []) (h : daemonStep build cnf ctrl d op = some d')
    (hc : d'.heap b = some c') :
    ∃ c, d.heap b = some c ∧ c.dst.kind ≠ .incomplete ∧ Serves d b c := by
  have hold : ∀ {c}, d.heap b = some c → ∃ c, d.heap b = some c ∧ c.dst.kind ≠ .incomplete ∧
      Serves d b c := fun {c} hb =>
    ⟨c, hb, fun hi => hne (W.early hb hi), W.seated hb hne⟩
  cases step_origin L h hc with
  | same hb => exact hold hb
  | touched _ hb _ => exact hold hb
  | new _ hb _ =>
    refine absurd (elsewhere fun ev hm hq => ?_).2 hne
    have hlt := W.flowing.2.old ev hm _ hq
    rw [hb] at hlt
    exact absurd hlt (Nat.lt_irrefl _)

/-- The socket of a connected server end is not closed while its block is in memory. -/
theorem kept_open (L : Ledger (view d) claim home) (L' : Ledger (view d') claim' home')
    (h : daemonStep build cnf ctrl d op = some d') (hlog : d'.log = d.log ++ l) (hsv : Serves d b c)
    (hc : d'.heap b = some c') (hk : c'.dst.kind ≠ .incomplete) : .close c.dst.sock ∉ l := by
  intro hm
  obtain ⟨l', hlog', hshut⟩ := step_shuts L h
  have hll : l' = l := List.append_cancel_left (hlog'.symm.trans hlog)
  subst hll
  obtain ⟨_, hsock, hsv'⟩ := serves_forward L (step_cases L h) hsv hc (Or.inr hk)
  have hopen : d'.isOpen c'.dst.sock = true := L'.sound.live (serves_claims L' hsv' .dst)
  rcases hshut _ hm with hclosed | ⟨b2, c2, hsv2, hfd, hinc⟩
  · rw [← hsock, hopen] at hclosed
    cases hclosed
  · have h2 : claim (.conn b2 .dst) = some c.dst.sock := hfd ▸ serves_claims L hsv2 .dst
    have hbb := L.sound.inj h2 (serves_claims L hsv .dst)
    simp only [Owner.conn.injEq, and_true] at hbb
    subst hbb
    exact hk (hinc c' hc)

theorem Sends.taken (h : Sends d d' l b c) (hs : Single d.log (dstPtr b) c.dst.sock) :
    (∀ {x}, x ≠ c.dst.sock → taken (d.log ++ l) (dstPtr b) x = []) ∧
    (taken (d.log ++ l) (dstPtr b) c.dst.sock = accepted (d.log ++ l) (dstPtr b) ∨
      (.close c.dst.sock ∈ l ∧ taken (d.log ++ l) (dstPtr b) c.dst.sock = [])) := by
  obtain ⟨pre, len, bytes, post, rfl, hpre, hpost, hopen⟩ := h.shape
  have hbefore : ∀ x, pre.foldl (Ev.taken (dstPtr b)) (Failover.taken d.log (dstPtr b)) x =
      Failover.taken d.log (dstPtr b) x := fun x => fold_open _ hpre (hopen x)
  have hacc : accepted (d.log ++ (pre ++ .send (dstPtr b) c.dst.sock len bytes :: post)) (dstPtr b) =
      accepted d.log (dstPtr b) ++ bytes := by
    rw [accepted_append, accepted_append, accepted_cons, hpre, hpost]
    simp [Ev.accepted]
  rw [taken_append, List.foldl_append, List.foldl_cons, hacc]
  simp only [Ev.taken, ↓reduceIte]
  refine ⟨fun {x} hx => fold_nil _ hpost ?_, ?_⟩
  · rw [update_of_ne hx, hbefore, hs.other hx]
  · rcases fold_quiet (update (pre.foldl (Ev.taken (dstPtr b)) (Failover.taken d.log (dstPtr b)))
      c.dst.sock (pre.foldl (Ev.taken (dstPtr b)) (Failover.taken d.log (dstPtr b)) c.dst.sock ++ bytes))
      c.dst.sock hpost with he | ⟨hm, he⟩
    · left
      rw [he, update_self, hbefore, hs.own]
    · exact Or.inr ⟨List.mem_append_right _ (List.mem_cons_of_mem _ hm), he⟩

/-- A connection after a step, by whether its server was given bytes. -/
theorem whole_single (W : Whole d) (L : Ledger (view d) claim home) (L' : Ledger (view d') claim' home')
    (h : daemonStep build cnf ctrl d op = some d') (hlog : d'.log = d.log ++ l)
    (hg : accepted l (dstPtr b) = [] ∨ ∃ c, Sends d d' l b c) (hc : d'.heap b = some c') :
    Single d'.log (dstPtr b) c'.dst.sock := by
  have hs := step_cases L h
  rw [hlog]
  rcases hg with hq | ⟨c, S⟩
  · have hacc : accepted (d.log ++ l) (dstPtr b) = accepted d.log (dstPtr b) := by
      rw [accepted_append, hq, List.append_nil]
    by_cases hne : accepted d.log (dstPtr b) = []
    · have hnil : ∀ x, taken (d.log ++ l) (dstPtr b) x = [] := by
        intro x
        rw [taken_append]
        exact fold_nil _ hq ((W.either b x).elim id fun he => he.trans hne)
      exact ⟨by rw [hnil, hacc, hne], fun _ => hnil _⟩
    · obtain ⟨c, hb, hk, hsv⟩ := taken_origin W L hne h hc
      obtain ⟨hk', hsock, _⟩ := serves_forward L hs hsv hc (Or.inl hk)
      have hopen := kept_open L L' h hlog hsv hc hk'
      rw [hsock]
      refine ⟨?_, fun hx => ?_⟩
      · rw [taken_append, fold_open _ hq hopen, hacc, (W.single hb).own]
      · rw [taken_append]
        exact fold_nil _ hq ((W.single hb).other hx)
  · have hk : c.dst.kind ≠ .incomplete ∨ c'.dst.kind ≠ .incomplete :=
      S.kind.imp_right fun hx => hx c' hc
    obtain ⟨hk', hsock, _⟩ := serves_forward L hs S.serves hc hk
    obtain ⟨hother, hown⟩ := S.taken (W.single (serves_block S.serves))
    have hopen := kept_open L L' h hlog S.serves hc hk'
    rw [hsock]
    exact ⟨hown.resolve_right fun hm => hopen hm.1, hother⟩

theorem whole_step (W : Whole d) (hok : HoldsBack d op) (h : daemonStep build cnf ctrl d op = some d') :
    Whole d' := by
  have F' := flowing_step W.flowing h
  obtain ⟨⟨claim, home, L⟩, S⟩ := W.flowing
  obtain ⟨claim', home', L'⟩ := F'.1
  have hs := step_cases L h
  obtain ⟨l, hlog, hcalls⟩ := step_calls hs hok
  have hgiven := calls_sends S hcalls
  have hcomplete : ∀ {b c c'}, Sends d d' l b c → d'.heap b = some c' →
      c'.dst.kind ≠ .incomplete ∧ Serves d' b c' := by
    intro b c c' hsend hc
    have hk : c.dst.kind ≠ .incomplete ∨ c'.dst.kind ≠ .incomplete :=
      hsend.kind.imp_right fun hx => hx c' hc
    obtain ⟨hk', _, hsv⟩ := serves_forward L hs hsend.serves hc hk
    exact ⟨hk', hsv⟩
  have hquiet : ∀ {b}, accepted l (dstPtr b) = [] →
      accepted d'.log (dstPtr b) = accepted d.log (dstPtr b) := by
    intro b hq
    rw [hlog, accepted_append, hq, List.append_nil]
  refine ⟨F', ?_, fun {b c'} hc => whole_single W L L' h hlog (hgiven b) hc, ?_, ?_, ?_⟩
  · intro b c' hc hi
    rcases hgiven b with hq | ⟨c, hsend⟩
    · rw [hquiet hq]
      by_contra hne
      obtain ⟨c, _, hk, hsv⟩ := taken_origin W L hne h hc
      exact (serves_forward L hs hsv hc (Or.inl hk)).1 hi
    · exact absurd hi (hcomplete hsend hc).1
  · intro b c' hc hne
    rcases hgiven b with hq | ⟨c, hsend⟩
    · rw [hquiet hq] at hne
      obtain ⟨c, _, hk, hsv⟩ := taken_origin W L hne h hc
      exact (serves_forward L hs hsv hc (Or.inl hk)).2.2
    · exact (hcomplete hsend hc).2
  · intro b fd
    rcases hgiven b with hq | ⟨c, hsend⟩
    · rw [hquiet hq, hlog, taken_append]
      rcases fold_quiet (taken d.log (dstPtr b)) fd hq with he | ⟨_, he⟩
      · rw [he]
        exact W.either b fd
      · exact Or.inl he
    · obtain ⟨hother, hown⟩ := hsend.taken (W.single (serves_block hsend.serves))
      rw [hlog]
      by_cases hfd : fd = c.dst.sock
      · rw [hfd]
        exact hown.elim Or.inr fun hm => Or.inl hm.2
      · exact Or.inl (hother hfd)
  · intro b
    rcases hgiven b with hq | ⟨c, hsend⟩
    · rw [hquiet hq, hlog, arrived_append]
      exact (W.front b).trans (List.prefix_append _ _)
    · rw [hlog]
      exact hsend.front

theorem whole_init (hn : pipes.Nodup) (hu : ∀ fd ∈ pipes, 0 < fd ∧ used fd = true) (router : Router) :
    Whole (Daemon.init pipes used router) where
  flowing := ⟨registered_init hn hu router, by simp [Daemon.init], by simp [Daemon.init],
    by simp [Daemon.init]⟩
  early := by
    intro b c hc
    cases hc
  single := by
    intro b c hc
    cases hc
  seated := by
    intro b c hc
    cases hc
  either := fun _ _ => Or.inl rfl
  front := fun _ => List.nil_prefix

end step

/-- In every run in which no byte of a client is taken by a socket that is not known
to be connected, each server socket of a connection has taken the client's first
bytes, without a gap. A socket that is given up for another server has taken none. -/
theorem failover_whole (hn : pipes.Nodup) (hu : ∀ fd ∈ pipes, 0 < fd ∧ used fd = true)
    (hrun : exec (daemonStep build cnf ctrl) (Daemon.init pipes used router) ops = some d)
    (hok : Along (daemonStep build cnf ctrl) HoldsBack (Daemon.init pipes used router) ops) :
    (∀ b fd, taken d.log (dstPtr b) fd <+: arrived d.log (dstPtr b)) ∧
    ∀ (i : Nat) pool b c, d.pools[i]? = some pool → Held (d.world pool) b c →
      c.dst.kind = .incomplete → taken d.log (dstPtr b) c.dst.sock = [] := by
  have W : Whole d := exec_keeps (fun _ _ _ => whole_step) (whole_init hn hu router) hok hrun
  refine ⟨fun b fd => ?_, fun i pool b c _ hh hi => ?_⟩
  · rcases W.either b fd with he | he
    · rw [he]
      exact List.nil_prefix
    · rw [he]
      exact W.front b
  · rw [(W.single hh.block).own]
    exact W.early hh.block hi

/-- The client's first three bytes go to A, whose reset is then taken for a failed
connect. B is given the fourth. -/
def lostStart : List DaemonOp :=
  threeBytes 3 ++ [addServer serverB,
    .write 0 7 ⟨104, 101, chooseAt 101, .socket 8 EINPROGRESS, 101⟩ ⟨0, 0⟩,
    .read 0 6 (.data [4]) ⟨0, EAGAIN⟩,
    .write 0 8 ⟨0, 101, chooseAt 101, .noSocket 24, 101⟩ ⟨1, 0⟩]

/-- The second server's socket has taken bytes from the middle of the stream. -/
theorem failover_lost_start :
    exec (daemonStep .epoll leastConns noWdog) oneDaemon lostStart =
      some (reachedBy leastConns lostStart) ∧
    arrived (reachedBy leastConns lostStart).log (dstPtr 0) = [1, 2, 3, 4] ∧
    taken (reachedBy leastConns lostStart).log (dstPtr 0) 8 = [4] ∧
    ¬ taken (reachedBy leastConns lostStart).log (dstPtr 0) 8 <+:
      arrived (reachedBy leastConns lostStart).log (dstPtr 0) :=
  ⟨reached_by leastConns lostStart (by decide +kernel), by decide +kernel, by decide +kernel,
    by decide +kernel⟩

/-- A's socket takes nothing before the connect to it fails; B is given all. -/
def heldBack : List DaemonOp :=
  connectA ++ [.read 0 6 (.data [1, 2, 3]) ⟨0, EAGAIN⟩, addServer serverB,
    .write 0 7 ⟨111, 101, chooseAt 101, .socket 8 EINPROGRESS, 101⟩ ⟨0, 0⟩,
    .write 0 8 ⟨0, 101, chooseAt 101, .noSocket 24, 101⟩ ⟨2, 0⟩]

theorem failover_whole_held_back :
    taken (reachedBy leastConns heldBack).log (dstPtr 0) 8 = [1, 2] ∧
    taken (reachedBy leastConns heldBack).log (dstPtr 0) 8 <+:
      arrived (reachedBy leastConns heldBack).log (dstPtr 0) := by
  have hrun := reached_by leastConns heldBack (by decide +kernel)
  have hwhole := failover_whole (by simp) (by decide) hrun (by decide +kernel)
  exact ⟨by decide +kernel, hwhole.1 0 8⟩

end Glb.Proofs.Failover
