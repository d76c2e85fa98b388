import Glb.Proofs.Serving

namespace Glb.Proofs.Accounted
open Function Lib.Run PoolFrame PoolEvents DaemonSteps Ownership DaemonLedger Registry Serving RouterRun

variable {build : Build} {cnf : Cnf} {ctrl : Ctrl} {d d' : Daemon} {w w' u : World} {op : DaemonOp}
variable {i b : Nat} {c c' c1 : Conn} {s : Side} {X Y : Fd → Prop} {heap heap' : Nat → Option Conn}
variable {isOpen isOpen' : Fd → Bool}

/-- Every open descriptor has a holder: one that `X` tells, or a connection in memory. -/
def Owned (X : Fd → Prop) (heap : Nat → Option Conn) (isOpen : Fd → Bool) : Prop :=
  ∀ fd, 0 < fd → isOpen fd = true → X fd ∨ ∃ b c s, heap b = some c ∧ fd = (side c s).sock

section rules

theorem Owned.mono (h : Owned X heap isOpen) (hX : ∀ fd, X fd → Y fd) : Owned Y heap isOpen := by
  intro fd hp ho
  exact (h fd hp ho).imp_left (hX fd)

theorem Owned.shut (h : Owned X heap isOpen) (fd : Fd) : Owned (fun x => X x ∧ x ≠ fd) heap (update isOpen fd false) := by
  intro x hp ho
  have hne : x ≠ fd := by
    rintro rfl
    rw [update_self] at ho
    cases ho
  rw [update_of_ne hne] at ho
  exact (h x hp ho).imp_left fun hx => ⟨hx, hne⟩

theorem Owned.opened (h : Owned X heap isOpen) (fd : Fd) : Owned (fun x => X x ∨ x = fd) heap (update isOpen fd true) := by
  intro x hp ho
  by_cases hx : x = fd
  · exact Or.inl (Or.inr hx)
  · rw [update_of_ne hx] at ho
    exact (h x hp ho).imp_left Or.inl

/-- A block is written whose open descriptors it keeps. -/
theorem Owned.put (h : Owned X heap isOpen) (c' : Conn)
    (hs : ∀ c s, heap b = some c → 0 < (side c s).sock → isOpen (side c s).sock = true →
      X (side c s).sock ∨ ∃ t, (side c' t).sock = (side c s).sock) :
    Owned X (update heap b (some c')) isOpen := by
  intro fd hp ho
  rcases h fd hp ho with hx | ⟨b', c, s, hb', rfl⟩
  · exact Or.inl hx
  · by_cases hb : b' = b
    · subst hb
      rcases hs c s hb' hp ho with hx | ⟨t, ht⟩
      · exact Or.inl hx
      · exact Or.inr ⟨b', c', t, update_self _ _ _, ht.symm⟩
    · exact Or.inr ⟨b', c, s, (update_of_ne hb _ _).trans hb', rfl⟩

/-- A block is freed whose descriptors are closed. -/
theorem Owned.free (h : Owned X heap isOpen)
    (hs : ∀ c s, heap b = some c → 0 < (side c s).sock → isOpen (side c s).sock = false) :
    Owned X (update heap b none) isOpen := by
  intro fd hp ho
  rcases h fd hp ho with hx | ⟨b', c, s, hb', rfl⟩
  · exact Or.inl hx
  · refine Or.inr ⟨b', c, s, (update_of_ne ?_ _ _).trans hb', rfl⟩
    rintro rfl
    rw [hs c s hb' hp] at ho
    cases ho

end rules

section worlds

theorem owned_bare (hb : bare w' = bare w) (h : Owned X w.heap w.isOpen) : Owned X w'.heap w'.isOpen := by
  have hheap : w'.heap = w.heap := congrArg (fun w => w.heap) hb
  have hopen : w'.isOpen = w.isOpen := congrArg (fun w => w.isOpen) hb
  rw [hheap, hopen]
  exact h

theorem owned_put (h : Owned X w.heap w.isOpen) (hc : w.heap b = some c)
    (hs : ∀ t, (side c' t).sock = (side c t).sock) : Owned X (putConn w b c').heap w.isOpen := by
  refine Owned.put h _ fun c0 s h0 _ _ => Or.inr ⟨s, ?_⟩
  rw [hc] at h0
  cases h0
  exact hs s

theorem owned_gone (cnf : Cnf) (h : Owned X w.heap w.isOpen) (hc : w.heap b = some c) (notify : Bool) :
    Owned X (gone cnf w b c notify).heap (gone cnf w b c notify).isOpen := by
  have hopen : (gone cnf w b c notify).isOpen = update (update w.isOpen c.dst.sock false) c.inc.sock false := by
    cases notify <;> rfl
  rw [gone_heap, hopen]
  have hclosed := ((h.shut c.dst.sock).shut c.inc.sock).mono fun _ hx => hx.1.1
  refine Owned.free hclosed fun c0 s h0 _ => ?_
  rw [hc] at h0
  cases h0
  cases s with
  | inc => exact update_self _ _ _
  | dst => by_cases he : c.dst.sock = c.inc.sock <;> simp [side, update_apply, he]

theorem owned_detached (h : Owned X w.heap w.isOpen) (c : Conn) :
    Owned X (detached w c).heap (detached w c).isOpen :=
  (h.shut c.dst.sock).mono fun _ hx => hx.1

theorem owned_lost (cnf : Cnf) (h : Owned X w.heap w.isOpen) (hc : w.heap b = some c)
    (hd : 0 < c.dst.sock → w.isOpen c.dst.sock = false) (hs : ∀ t, (side c1 t).sock = (side c t).sock) (now : Int)
    (l : List Ev) : Owned X (lost cnf w b c1 now l).heap (lost cnf w b c1 now l).isOpen := by
  have hopen : (lost cnf w b c1 now l).isOpen = update w.isOpen c1.inc.sock false := rfl
  have hclosed := (h.shut c1.inc.sock).mono fun _ hx => hx.1
  rw [← hopen] at hclosed
  refine Owned.free hclosed fun c0 s h0 hp => ?_
  rw [hc] at h0
  cases h0
  rw [hopen, show c1.inc.sock = c.inc.sock from hs .inc]
  cases s with
  | inc => exact update_self _ _ _
  | dst =>
    have hshut : w.isOpen c.dst.sock = false := hd hp
    by_cases he : c.dst.sock = c.inc.sock
    · rw [show (side c .dst).sock = c.inc.sock from he, update_self]
    · exact (update_of_ne he _ _).trans hshut

theorem owned_attached (h : Owned X w.heap w.isOpen) (hc : w.heap b = some c) :
    Owned X (attached w b c).heap (attached w b c).isOpen := by
  have hopen : (attached w b c).isOpen = w.isOpen := rfl
  rw [attached_heap, hopen]
  exact owned_put h hc fun t => by cases t <;> rfl

/-- A connection gets a new descriptor for its server end, which had none that is open. -/
theorem owned_fresh (h : Owned X w.heap w.isOpen) (hc : w.heap b = some c)
    (hd : 0 < c.dst.sock → w.isOpen c.dst.sock = false) (hi : c1.inc.sock = c.inc.sock) (hfd : c1.dst.sock = fd) :
    Owned X (attached (opened w fd) b c1).heap (attached (opened w fd) b c1).isOpen := by
  have hopen : (attached (opened w fd) b c1).isOpen = update w.isOpen fd true := rfl
  rw [attached_heap, hopen]
  intro x hp ho
  by_cases hx : x = fd
  · exact Or.inr ⟨b, _, .dst, update_self _ _ _, hx.trans hfd.symm⟩
  · rw [update_of_ne hx] at ho
    refine Owned.put h ⟨registered c1.inc, registered c1.dst⟩ (fun c0 s h0 hp ho => Or.inr ?_) x hp ho
    rw [hc] at h0
    cases h0
    cases s with
    | inc => exact ⟨.inc, hi⟩
    | dst =>
      have hshut : w.isOpen (side c .dst).sock = false := hd hp
      rw [hshut] at ho
      cases ho

theorem read_owned (h : Owned X w.heap w.isOpen) (hh : Held w b c) (hf : ReadFate cnf w b c s recv send u) :
    Owned X u.heap u.isOpen := by
  cases hf with
  | full _ => exact h
  | nothing _ => exact h
  | closed _ _ => exact owned_gone cnf (w := logs w _) h hh.block true
  | detach _ _ _ => exact owned_detached (w := logs w _) h c
  | passed avail bytes _ _ _ _ _ => exact owned_put (w := logs w _) h hh.block fun t => (read_fixed c s bytes send t).1
  | broken bytes _ _ _ _ =>
    exact owned_gone cnf (w := putConn (logs w _) b _)
      (owned_put (w := logs w _) h hh.block (filled_socks c s bytes)) (put_conn_heap _ _ _) true

theorem write_owned (h : Owned X w.heap w.isOpen) (hh : Held w b c) (hf : WriteFate cnf w b c s env send u) :
    Owned X u.heap u.isOpen := by
  cases hf with
  | drained _ => exact owned_put h hh.block (settled_socks c s)
  | passed _ _ =>
    refine owned_put (w := logs w _) h hh.block fun t => ?_
    rw [(sent_conn_fixed _ s send true t).1, settled_socks]
  | broken _ =>
    exact owned_gone cnf (w := putConn (logs w _) b _)
      (owned_put (w := logs w _) h hh.block (settled_socks c s)) (put_conn_heap _ _ _) true
  | refused _ _ _ =>
    exact owned_gone cnf (w := putConn (rerouted cnf w c env) b _)
      (owned_put (w := rerouted cnf w c env) h hh.block (by intro t; cases t <;> rfl)) (put_conn_heap _ _ _) false
  | moved addr fd _ _ _ _ _ =>
    have hdet := owned_detached (w := rerouted cnf w c env) h c
    exact owned_fresh hdet hh.block (fun _ => update_self _ _ _) rfl rfl
  | abandoned addr l _ _ _ _ =>
    have hdet := owned_detached (w := rerouted cnf w c env) h c
    refine owned_lost cnf hdet hh.block (fun _ => ?_) (by intro t; cases t <;> rfl) env.addNow l
    exact update_self _ _ _

theorem removals_owned (hr : Removals cnf w u) (h : Owned X w.heap w.isOpen) : Owned X u.heap u.isOpen :=
  removals_keep (fun w => Owned X w.heap w.isOpen) hr (fun _ _ hb h => owned_bare hb h)
    (fun _ _ _ hh _ h => owned_gone cnf h hh.block false) (fun _ _ c _ _ _ h => owned_detached h c) h

/-- Every step of a pool thread keeps the account. -/
theorem fate_owned (h : Owned X w.heap w.isOpen) (hf : Fate cnf i w op u) : Owned X u.heap u.isOpen := by
  have hneg : ∀ {fd}, fd < 0 → 0 < fd → w.isOpen fd = false := by
    intro fd hn hpos
    exact absurd hpos (Int.not_lt.mpr (Int.le_of_lt hn))
  cases hf with
  | read hh hk hf => exact read_owned h hh hf
  | write hh hk hf => exact write_owned h hh hf
  | @lost b c q l env hp hc hd hl => exact owned_lost cnf (w := popped w q) h hc (hneg hd) (fun _ => rfl) env.now l
  | @added b c q w1 c1 env hp hc hs =>
    rcases hs with ⟨_, rfl, rfl⟩ | ⟨hd, fd, _, _, rfl, rfl⟩
    · exact owned_attached (w := popped w q) h hc
    · exact owned_fresh (w := popped w q) h hc (hneg hd) rfl rfl
  | stats env hp => exact h
  | dropped env hp hb hr => exact removals_owned hr (owned_bare hb h)
  | @shutdown q w1 u env hp hb hr =>
    have hu := removals_owned hr (owned_bare hb h)
    exact (hu.shut u.ctlRecv).mono fun _ hx => hx.1

end worlds

section daemon

/-- The listener holds the descriptor. -/
def listens (l : Listener) (fd : Fd) : Prop := clientFd l = some fd ∨ serverFd l = some fd

/-- Every open descriptor of the daemon was open from the start, or is held by the listener
or by a connection in memory. -/
def AllHeld (used : Fd → Bool) (d : Daemon) : Prop :=
  Owned (fun fd => used fd = true ∨ listens d.listener fd) d.heap d.isOpen

theorem accept_accounted (h : AllHeld used d) (hl : d.listener = .idle)
    (hf : AcceptFate cnf d fd addr env d') : AllHeld used d' := by
  have hused : Owned (fun fd => used fd = true) d.heap d.isOpen :=
    Owned.mono h fun x hx => hx.resolve_right (by simp [listens, hl, clientFd, serverFd])
  cases hf with
  | turned l _ => exact h
  | none r l _ _ => exact h
  | noneSync r l _ _ => exact h
  | chosen r dst _ =>
    refine (hused.opened fd).mono ?_
    rintro x (hx | rfl)
    · exact Or.inl hx
    · exact Or.inr (Or.inl rfl)
  | connecting r i sock _ _ _ =>
    refine ((hused.opened fd).opened sock).mono ?_
    rintro x ((hx | rfl) | rfl)
    · exact Or.inl hx
    · exact Or.inr (Or.inl rfl)
    · exact Or.inr (Or.inr rfl)

theorem connected_accounted (h : AllHeld used d) (hl : d.listener = .connecting inc addr sock hint i)
    (hf : ConnectedFate cnf d inc addr sock hint i now env d') : AllHeld used d' := by
  have hboth : Owned (fun x => used x = true ∨ some inc = some x ∨ some sock = some x) d.heap d.isOpen := by
    rw [AllHeld, hl] at h
    exact h
  -- the listener keeps both descriptors, the client's, or none
  cases hf with
  | retry r j _ => exact hboth
  | done dst _ => exact hboth
  | failed r _ =>
    refine ((hboth.shut sock).shut inc).mono ?_
    rintro x ⟨⟨hx | hx | hx, hs⟩, hi⟩
    · exact Or.inl hx
    · exact absurd (Option.some.inj hx).symm hi
    · exact absurd (Option.some.inj hx).symm hs
  | pending dst _ =>
    refine (hboth.shut sock).mono ?_
    rintro x ⟨hx | hx | hx, hs⟩
    · exact Or.inl hx
    · exact Or.inr (Or.inl hx)
    · exact absurd (Option.some.inj hx).symm hs

theorem undo_accounted (cnf : Cnf) (h : AllHeld used d) (hl : d.listener = .chosen inc addr sock dst complete) :
    AllHeld used (listenerUndo cnf d inc sock dst) := by
  refine ((Owned.shut h sock).shut inc).mono ?_
  rintro x ⟨⟨hx | hx, hs⟩, hi⟩
  · exact Or.inl hx
  · rw [hl] at hx
    rcases hx with hx | hx
    · exact absurd (Option.some.inj hx).symm hi
    · cases complete with
      | false => cases hx
      | true => exact absurd (Option.some.inj hx).symm hs

/-- A new block takes over what the listener held. -/
theorem add_accounted (h : AllHeld used d) (hl : d.listener = .chosen inc addr sock dst complete)
    (hnew : d.heap d.nextBlock = none) (hf : AddFate cnf d inc addr sock dst complete d') : AllHeld used d' := by
  have halloc : ∀ {Y : Fd → Prop}, Owned Y d.heap d.isOpen →
      Owned Y (allocated d (newConn inc addr sock dst complete)).heap d.isOpen := by
    intro Y hY
    refine Owned.put hY _ fun c s hc _ _ => ?_
    rw [hnew] at hc
    cases hc
  cases hf with
  | noMemory => exact undo_accounted cnf h hl
  | unsent => exact undo_accounted cnf (d := allocated d (newConn inc addr sock dst complete)) (halloc h) hl
  | queued =>
    intro x hp ho
    rcases halloc h x hp ho with (hx | hx) | hx
    · exact Or.inl (Or.inl hx)
    · rw [hl] at hx
      refine Or.inr ?_
      rcases hx with hx | hx
      · exact ⟨d.nextBlock, _, .inc, update_self _ _ _, (Option.some.inj hx).symm⟩
      · cases complete with
        | false => cases hx
        | true => exact ⟨d.nextBlock, _, .dst, update_self _ _ _, (Option.some.inj hx).symm⟩
    · exact Or.inr hx

theorem accounted_step (hd : Registered d ∧ AllHeld used d) (hs : daemonStep build cnf ctrl d op = some d') :
    Registered d' ∧ AllHeld used d' := by
  refine ⟨registered_step hd.1 hs, ?_⟩
  obtain ⟨⟨claim, home, L⟩, h⟩ := hd
  cases step_cases L hs with
  | accept hl _ _ hf => exact accept_accounted h hl hf
  | connected hl hf => exact connected_accounted h hl hf
  | addConn hl hf =>
    have hnew : d.heap d.nextBlock = none := by
      rw [Option.eq_none_iff_forall_ne_some]
      intro c hc
      exact Nat.lt_irrefl _ (L.below hc)
    exact add_accounted h hl hnew hf
  | @pool _ _ i p u w' hp =>
    obtain ⟨_, _, hf, hb, rfl⟩ := hp
    have hw : Owned (fun fd => used fd = true ∨ listens d.listener fd) (d.world p).heap (d.world p).isOpen := h
    exact owned_bare hb (fate_owned hw hf)
  | request hq =>
    obtain ⟨_, hh, ho, _, hlst, _⟩ := request_frame hq
    unfold AllHeld
    rw [hh, ho, hlst]
    exact h
  | drop dst => exact h
  | destroy => exact h

/-- No descriptor gets lost but with its connection. In every state of the daemon each
descriptor that is open was open from the start, or the listener has it in its hands, or
a connection in memory has it as one of its ends; and of the connections that the pools
serve, each has two descriptors of its own, both open. -/
theorem descriptors_accounted (hn : pipes.Nodup) (hu : ∀ fd ∈ pipes, 0 < fd ∧ used fd = true)
    (h : exec (daemonStep build cnf ctrl) (Daemon.init pipes used router) ops = some d) :
    (∀ fd, 0 < fd → d.isOpen fd = true → used fd = true ∨ listens d.listener fd ∨
      ∃ b c s, d.heap b = some c ∧ fd = (side c s).sock) ∧
    (∀ b c s, Serves d b c → d.isOpen (side c s).sock = true ∧
      ∀ b' c' s', Serves d b' c' → (side c' s').sock = (side c s).sock → b' = b ∧ s' = s) := by
  have hinit : Registered (Daemon.init pipes used router) ∧ AllHeld used (Daemon.init pipes used router) :=
    ⟨registered_init hn hu router, fun fd _ ho => Or.inl (Or.inl ho)⟩
  obtain ⟨⟨claim, home, L⟩, hacc⟩ := exec_invariant (fun _ _ _ => accounted_step) hinit h
  refine ⟨fun fd hp ho => ?_, fun b c s hserves => ?_⟩
  · rcases hacc fd hp ho with (hx | hx) | hx
    · exact Or.inl hx
    · exact Or.inr (Or.inl hx)
    · exact Or.inr (Or.inr hx)
  · have hclaim := serves_claims L hserves s
    refine ⟨L.sound.live hclaim, fun b' c' s' hserves' he => ?_⟩
    have hsame := L.sound.inj (serves_claims L hserves' s') (he ▸ hclaim)
    simpa using hsame

/-- The descriptors of a client, and of its server end that is connecting. -/
theorem descriptors_accounted_connecting :
    ∃ b c s, (reachedBy leastConns connectA).heap b = some c ∧ 7 = (side c s).sock := by
  obtain ⟨hopen, _⟩ := descriptors_accounted (by simp) (by decide)
    (reached_by leastConns connectA (by decide +kernel))
  rcases hopen 7 (by decide) (by decide +kernel) with hused | hl | hb
  · exact absurd hused (by decide)
  · have hidle : (reachedBy leastConns connectA).listener = .idle := by decide +kernel
    rw [hidle] at hl
    rcases hl with hl | hl <;> cases hl
  · exact hb

end daemon

end Glb.Proofs.Accounted
