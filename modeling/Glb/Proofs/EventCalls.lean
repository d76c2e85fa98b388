import Glb.Events
import Glb.Proofs.Serving
import Glb.Proofs.RouterRun

namespace Glb.Proofs.EventCalls
open Function PoolFrame PoolEvents Ownership FdTable FdSteps Drop Serving RouterRun

variable {build : Build} {cnf : Cnf} {w w' u : World} {b : Nat} {c c' : Conn} {s : Side} {fd : Fd}

/-- A pool between two calls of its event loop: its tables are in order, and what
they hold is open. -/
structure Ready (build : Build) (w : World) : Prop extends Tabled build w where
  paired : Paired w
  live : Live w

/-- A descriptor of the map is that of a connection's end. -/
theorem Ready.served (R : Ready build w) (hr : w.routeMap fd ≠ none) :
    ∃ b c s, Held w b c ∧ fd = (side c s).sock := by
  obtain ⟨q, hq⟩ := Option.ne_none_iff_exists'.mp hr
  exact R.paired fd q hq

section linked

theorem paired_put (hp : Paired w) (hh : Held w b c) (hs : ∀ t, (side c' t).sock = (side c t).sock) :
    Paired (putConn w b c') := by
  intro fd q hq
  obtain ⟨b1, c1, s, hh1, rfl⟩ := hp fd q hq
  by_cases hb : b1 = b
  · subst hb
    have hc : c1 = c := Option.some.inj (hh1.block.symm.trans hh.block)
    exact ⟨b1, c', s, held_put hh hs, by rw [hc, hs]⟩
  · exact ⟨b1, c1, s, (held_put_iff hh hs).mpr (Or.inr ⟨hb, hh1⟩), rfl⟩

theorem live_unroute (hn : ∀ t, (side c t).sock ≠ w.ctlRecv) (hl : Live w)
    (hm : w'.routeMap = update (update w.routeMap c.dst.sock none) c.inc.sock none)
    (ho : ∀ {fd}, fd ≠ c.dst.sock → fd ≠ c.inc.sock → w'.isOpen fd = w.isOpen fd)
    (hc : w'.ctlRecv = w.ctlRecv) : Live w' := by
  refine ⟨?_, fun {fd} hr => ?_⟩
  · rw [hc, ho (hn .dst).symm (hn .inc).symm]
    exact hl.ctl
  · rw [hm] at hr
    obtain ⟨q, hq⟩ := Option.ne_none_iff_exists'.mp hr
    rcases update_eq_some hq with ⟨_, hx⟩ | ⟨hni, hq⟩
    · cases hx
    rcases update_eq_some hq with ⟨_, hx⟩ | ⟨hnd, hq⟩
    · cases hx
    rw [ho hnd hni]
    exact hl.routed (by rw [hq]; simp)

/-- Both halves of what `Ready` adds to the table. -/
def Linked (w : World) : Prop := Paired w ∧ Live w

theorem linked_frame (h : Linked w) (hh : w'.heap = w.heap) (hm : w'.routeMap = w.routeMap)
    (ho : w'.isOpen = w.isOpen) (hc : w'.ctlRecv = w.ctlRecv) : Linked w' := by
  refine ⟨fun fd q hq => ?_, ?_, fun {fd} hr => ?_⟩
  · obtain ⟨b, c, s, h1, hs⟩ := h.1 fd q (hm ▸ hq)
    exact ⟨b, c, s, ⟨hh ▸ h1.block, hm ▸ h1.route⟩, hs⟩
  · rw [ho, hc]
    exact h.2.ctl
  · rw [ho]
    exact h.2.routed (hm ▸ hr)

theorem linked_bare (hb : bare w' = bare w) (h : Linked w) : Linked w' :=
  linked_frame h (congrArg (fun w => w.heap) hb) (congrArg (fun w => w.routeMap) hb)
    (congrArg (fun w => w.isOpen) hb) (congrArg (fun w => w.ctlRecv) hb)

theorem linked_put (h : Linked w) (hh : Held w b c) (hs : ∀ t, (side c' t).sock = (side c t).sock) :
    Linked (putConn w b c') := ⟨paired_put h.1 hh hs, h.2.ctl, h.2.routed⟩

theorem linked_gone (cnf : Cnf) (hn : ∀ t, (side c t).sock ≠ w.ctlRecv) (h : Linked w)
    (hh : Held w b c) (notify : Bool) : Linked (gone cnf w b c notify) := by
  have hm : (gone cnf w b c notify).routeMap =
      update (update w.routeMap c.dst.sock none) c.inc.sock none := by cases notify <;> rfl
  have ho : (gone cnf w b c notify).isOpen =
      update (update w.isOpen c.dst.sock false) c.inc.sock false := by cases notify <;> rfl
  refine ⟨paired_unroute h.1 hh hm (held_gone_iff cnf hh notify),
    live_unroute hn h.2 hm (fun {fd} hd hi => ?_) (by cases notify <;> rfl)⟩
  rw [ho, update_of_ne hi, update_of_ne hd]

theorem linked_detached (hn : ∀ t, (side c t).sock ≠ w.ctlRecv) (h : Linked w) (hh : Held w b c) :
    Linked (detached w c) := by
  refine ⟨paired_unroute h.1 hh rfl (held_detached_iff hh),
    live_unroute hn h.2 rfl (fun {fd} hd _ => ?_) rfl⟩
  exact update_of_ne hd _ _

/-- The map of a pool that is between two attempts to connect. -/
theorem detached_routes (hn : ∀ t, (side c t).sock ≠ w.ctlRecv) (h : Linked w) (hh : Held w b c) :
    (∀ {fd q}, (detached w c).routeMap fd = some q → q.block ≠ b) ∧
    (∀ t, (detached w c).routeMap (side c t).sock = none) ∧
    ∀ {fd}, (detached w c).isOpen fd = false →
      (detached w c).routeMap fd = none ∧ fd ≠ c.inc.sock ∧ fd ≠ w.ctlRecv := by
  have hlink := linked_detached hn h hh
  have hnone : ∀ t, (detached w c).routeMap (side c t).sock = none := unrouted_socks w.routeMap c
  refine ⟨fun {fd q} hq => ?_, hnone, fun {fd} hf => ⟨?_, ?_, ?_⟩⟩
  · obtain ⟨b1, c1, t, hh1, rfl⟩ := hlink.1 fd q hq
    have hptr : q = ptr b1 t.other := Option.some.inj (hq.symm.trans (hh1.route t))
    rw [hptr, ptr_block]
    exact ((held_detached_iff hh).mp hh1).1
  · by_contra hr
    rw [hlink.2.routed hr] at hf
    cases hf
  · rintro rfl
    have hopen : w.isOpen c.inc.sock = true := h.2.routed (by rw [show w.routeMap c.inc.sock = _ from hh.route .inc]; simp)
    have hf' : update w.isOpen c.dst.sock false c.inc.sock = false := hf
    rw [update_of_ne (held_socks hh), hopen] at hf'
    cases hf'
  · rintro rfl
    have hctl := hlink.2.ctl
    rw [show (detached w c).isOpen (detached w c).ctlRecv = false from hf] at hctl
    cases hctl

/-- A connection moves to a socket that was just opened. -/
theorem linked_moved (hn : ∀ t, (side c t).sock ≠ w.ctlRecv) (h : Linked w) (hh : Held w b c)
    (hi : c'.inc.sock = c.inc.sock) (hf : (detached w c).isOpen c'.dst.sock = false) :
    Linked (attached (opened (detached w c) c'.dst.sock) b c') := by
  obtain ⟨hled, hnone, hfresh⟩ := detached_routes hn h hh
  obtain ⟨hfd, hne, _⟩ := hfresh hf
  have hlink := linked_detached hn h hh
  have hinc : (detached w c).routeMap c'.inc.sock = none := hi ▸ hnone .inc
  have hiff : ∀ {b' c''}, Held (attached (opened (detached w c) c'.dst.sock) b c') b' c'' ↔
      (b' = b ∧ c'' = Blocks.registeredConn c') ∨ Held (opened (detached w c) c'.dst.sock) b' c'' :=
    held_attached_iff hled hinc hfd (hi.symm ▸ hne)
  have hown := hiff.mpr (Or.inl ⟨rfl, rfl⟩)
  have hmap : (attached (opened (detached w c) c'.dst.sock) b c').routeMap =
      update (update (detached w c).routeMap c'.inc.sock (some (dstPtr b))) c'.dst.sock
        (some (incPtr b)) := rfl
  have hopen : (attached (opened (detached w c) c'.dst.sock) b c').isOpen =
      update (detached w c).isOpen c'.dst.sock true := rfl
  have hincOpen : (detached w c).isOpen c.inc.sock = true := by
    have h0 : update w.isOpen c.dst.sock false c.inc.sock = true := by
      rw [update_of_ne (held_socks hh)]
      exact h.2.routed (by rw [show w.routeMap c.inc.sock = _ from hh.route .inc]; simp)
    exact h0
  have hup : ∀ {x}, (detached w c).isOpen x = true →
      update (detached w c).isOpen c'.dst.sock true x = true := by
    intro x hx
    by_cases he : x = c'.dst.sock
    · rw [he, update_self]
    · rw [update_of_ne he, hx]
  refine ⟨fun fd q hq => ?_, ?_, fun {fd} hr => ?_⟩
  · rw [hmap] at hq
    rcases update_eq_some hq with ⟨rfl, _⟩ | ⟨_, hq⟩
    · exact ⟨b, _, .dst, hown, rfl⟩
    rcases update_eq_some hq with ⟨rfl, _⟩ | ⟨_, hq⟩
    · exact ⟨b, _, .inc, hown, rfl⟩
    obtain ⟨b1, c1, t, hh1, rfl⟩ := hlink.1 fd q hq
    exact ⟨b1, c1, t, hiff.mpr (Or.inr ⟨hh1.block, hh1.route⟩), rfl⟩
  · rw [hopen]
    exact hup hlink.2.ctl
  · rw [hopen]
    rw [hmap] at hr
    obtain ⟨q, hq⟩ := Option.ne_none_iff_exists'.mp hr
    rcases update_eq_some hq with ⟨rfl, _⟩ | ⟨_, hq⟩
    · exact update_self _ _ _
    rcases update_eq_some hq with ⟨rfl, _⟩ | ⟨_, hq⟩
    · exact hup (hi.symm ▸ hincOpen)
    exact hup (hlink.2.routed (by rw [hq]; simp))

end linked

section handlers

/-- A call on the descriptors of the connection `c` in the block `b` leaves what
belongs to others alone. -/
structure Aside (w w' : World) (b : Nat) (c : Conn) : Prop where
  routes : ∀ {fd}, fd ≠ c.inc.sock → fd ≠ c.dst.sock → w.routeMap fd ≠ none →
    w'.routeMap fd = w.routeMap fd
  blocks : ∀ {b'}, b' ≠ b → w'.heap b' = w.heap b'
  ctl : w'.ctlRecv = w.ctlRecv

theorem aside_bare (hb : bare w' = bare u) (h : Aside w u b c) : Aside w w' b c := by
  have hm : w'.routeMap = u.routeMap := congrArg (fun w => w.routeMap) hb
  have hh : w'.heap = u.heap := congrArg (fun w => w.heap) hb
  have hc : w'.ctlRecv = u.ctlRecv := congrArg (fun w => w.ctlRecv) hb
  exact ⟨by rw [hm]; exact h.routes, by rw [hh]; exact h.blocks, hc.trans h.ctl⟩

theorem aside_unroute (hm : w'.routeMap = update (update w.routeMap c.dst.sock none) c.inc.sock none)
    (hh : ∀ {b'}, b' ≠ b → w'.heap b' = w.heap b') (hc : w'.ctlRecv = w.ctlRecv) : Aside w w' b c := by
  refine ⟨fun {fd} hi hd _ => ?_, hh, hc⟩
  rw [hm, update_of_ne hi, update_of_ne hd]

theorem read_aside (hf : ReadFate cnf w b c s recv send u) : Aside w u b c := by
  have hput : ∀ {l c1}, Aside w (putConn (logs w l) b c1) b c :=
    ⟨fun _ _ _ => rfl, fun hb => update_of_ne hb _ _, rfl⟩
  cases hf with
  | full _ => exact ⟨fun _ _ _ => rfl, fun _ => rfl, rfl⟩
  | nothing _ => exact ⟨fun _ _ _ => rfl, fun _ => rfl, rfl⟩
  | closed _ _ =>
    refine aside_unroute rfl (fun hb => ?_) rfl
    rw [gone_heap, update_of_ne hb]
    rfl
  | detach _ _ _ => exact aside_unroute rfl (fun _ => rfl) rfl
  | passed avail bytes _ _ _ _ => exact hput
  | broken bytes _ _ _ _ =>
    have hd : (filled c s bytes).dst.sock = c.dst.sock := filled_socks c s bytes .dst
    have hi : (filled c s bytes).inc.sock = c.inc.sock := filled_socks c s bytes .inc
    refine aside_unroute (by rw [← hd, ← hi]; rfl) (fun hb => ?_) rfl
    rw [gone_heap, update_of_ne hb]
    exact update_of_ne hb _ _

theorem write_aside (hn : ∀ t, (side c t).sock ≠ w.ctlRecv) (h : Linked w) (hh : Held w b c)
    (hf : WriteFate cnf w b c s env send u) : Aside w u b c := by
  have hput : ∀ {l c1}, Aside w (putConn (logs w l) b c1) b c :=
    ⟨fun _ _ _ => rfl, fun hb => update_of_ne hb _ _, rfl⟩
  have hd : (settled c s).dst.sock = c.dst.sock := settled_socks c s .dst
  have hi : (settled c s).inc.sock = c.inc.sock := settled_socks c s .inc
  cases hf with
  | drained _ => exact ⟨fun _ _ _ => rfl, fun hb => update_of_ne hb _ _, rfl⟩
  | passed _ => exact hput
  | broken _ =>
    refine aside_unroute (by rw [← hd, ← hi]; rfl) (fun hb => ?_) rfl
    rw [gone_heap, update_of_ne hb]
    exact update_of_ne hb _ _
  | refused _ _ _ =>
    refine aside_unroute rfl (fun hb => ?_) rfl
    rw [gone_heap, update_of_ne hb]
    exact update_of_ne hb _ _
  | moved addr fd _ _ _ _ ho =>
    refine ⟨fun {x} hxi hxd hr => ?_, fun hb => ?_, rfl⟩
    · -- the new descriptor was not open, so that nothing led anywhere from it
      have hlr : Linked (rerouted cnf w c env) := linked_frame h rfl rfl rfl rfl
      obtain ⟨_, _, hfresh⟩ := detached_routes (w := rerouted cnf w c env) hn hlr ⟨hh.block, hh.route⟩
      obtain ⟨hnone, _, _⟩ := hfresh ho
      have hx : (detached (rerouted cnf w c env) c).routeMap x = w.routeMap x := by
        have hm : (detached (rerouted cnf w c env) c).routeMap =
            update (update w.routeMap c.dst.sock none) c.inc.sock none := rfl
        rw [hm, update_of_ne hxi, update_of_ne hxd]
      have hne : x ≠ fd := by
        rintro rfl
        exact hr (hx.symm.trans hnone)
      have hm : (attached (opened (detached (rerouted cnf w c env) c) fd) b
          (onSock (retarget c addr) fd)).routeMap = update (update (detached (rerouted cnf w c env) c).routeMap
            c.inc.sock (some (dstPtr b))) fd (some (incPtr b)) := rfl
      rw [hm, update_of_ne hne, update_of_ne hxi, hx]
    · rw [attached_heap, update_of_ne hb]
      rfl
  | abandoned addr l _ _ _ _ => exact aside_unroute rfl (fun hb => update_of_ne hb _ _) rfl

theorem read_linked (hn : ∀ t, (side c t).sock ≠ w.ctlRecv) (h : Linked w) (hh : Held w b c)
    (hf : ReadFate cnf w b c s recv send u) : Linked u := by
  have hlogs : ∀ l, Linked (logs w l) := fun l => linked_frame h rfl rfl rfl rfl
  cases hf with
  | full _ => exact h
  | nothing _ => exact hlogs _
  | closed _ _ => exact linked_gone cnf (by exact hn) (hlogs _) (held_logs hh _) true
  | detach _ _ _ => exact linked_detached (by exact hn) (hlogs _) (held_logs hh _)
  | passed avail bytes _ _ _ _ =>
    exact linked_put (hlogs _) (held_logs hh _) fun t => (read_fixed c s bytes send t).1
  | broken bytes _ _ _ _ =>
    refine linked_gone cnf (fun t => ?_) (linked_put (hlogs _) (held_logs hh _) (filled_socks c s bytes))
      (held_put (held_logs hh _) (filled_socks c s bytes)) true
    rw [filled_socks]
    exact hn t

theorem write_linked (hn : ∀ t, (side c t).sock ≠ w.ctlRecv) (h : Linked w) (hh : Held w b c)
    (hf : WriteFate cnf w b c s env send u) : Linked u := by
  have hlogs : ∀ l, Linked (logs w l) := fun l => linked_frame h rfl rfl rfl rfl
  have hlr : Linked (rerouted cnf w c env) := linked_frame h rfl rfl rfl rfl
  have hhr : Held (rerouted cnf w c env) b c := ⟨hh.block, hh.route⟩
  cases hf with
  | drained _ => exact linked_put h hh (settled_socks c s)
  | passed _ =>
    refine linked_put (hlogs _) (held_logs hh _) fun t => ?_
    rw [(sent_conn_fixed _ s send true t).1, settled_socks]
  | broken _ =>
    refine linked_gone cnf (fun t => ?_) (linked_put (hlogs _) (held_logs hh _) (settled_socks c s))
      (held_put (held_logs hh _) (settled_socks c s)) true
    rw [settled_socks]
    exact hn t
  | refused _ _ _ =>
    have hs : ∀ t, (side (released c) t).sock = (side c t).sock := by intro t; cases t <;> rfl
    refine linked_gone cnf (fun t => ?_) (linked_put hlr hhr hs) (held_put hhr hs) false
    rw [hs]
    exact hn t
  | moved addr fd _ _ _ _ ho =>
    exact linked_moved (by exact hn) hlr hhr rfl ho
  | abandoned addr l _ _ _ _ =>
    obtain ⟨hled, hnone, _⟩ := detached_routes (by exact hn) hlr hhr
    have hlink := linked_detached (by exact hn) hlr hhr
    -- no descriptor leads to the block any more, and the client's is closed
    refine ⟨fun fd q hq => ?_, ?_, fun {fd} hr => ?_⟩
    · obtain ⟨b1, c1, t, hh1, hfd⟩ := hlink.1 fd q hq
      exact ⟨b1, c1, t, (held_lost_iff hled).mpr hh1, hfd⟩
    · have hne : w.ctlRecv ≠ c.inc.sock := (hn .inc).symm
      exact (update_of_ne hne _ _).trans hlink.2.ctl
    · have hne : fd ≠ c.inc.sock := by
        rintro rfl
        exact hr (hnone .inc)
      exact (update_of_ne hne _ _).trans (hlink.2.routed hr)

theorem Ready.not_ctl (R : Ready build w) (hh : Held w b c) (t : Side) :
    (side c t).sock ≠ w.ctlRecv := R.toTabled.not_ctl (held_routed hh t)

theorem Ready.kinds (R : Ready build w) (hh : Held w b c) : Kinds c :=
  R.toTabled.kinds (held_routed hh .inc)

theorem Ready.linked (R : Ready build w) : Linked w := ⟨R.paired, R.live⟩

theorem Ready.frame (R : Ready build w) (hh : w'.heap = w.heap) (hm : w'.routeMap = w.routeMap)
    (hc : w'.ctlRecv = w.ctlRecv) (hf : w'.fdset = w.fdset) (ho : w'.isOpen = w.isOpen) :
    Ready build w' := by
  obtain ⟨hp, hl⟩ := linked_frame R.linked hh hm ho hc
  exact ⟨R.toTabled.frame hh hm hc hf, hp, hl⟩

/-- `pool_handle_read` on a descriptor of a served connection. -/
theorem read_ready (R : Ready build w) (hh : Held w b c) (s : Side)
    (h : poolHandleRead build cnf w (side c s).sock recv send = some (w', ret)) :
    Ready build w' ∧ Aside w w' b c ∧ (Keeps build w w' b c ∨ ret < 0) := by
  have hk := R.kinds hh
  rw [← other_other s] at h
  obtain ⟨u, hf, hb⟩ := read_cases hh hk s.other h
  obtain ⟨hp, hl⟩ := linked_bare hb (read_linked (R.not_ctl hh) R.linked hh hf)
  obtain ⟨w1, ret1, h1, hcase⟩ := read_slots cnf R.toTabled hh hk s.other recv send
  rw [h, Option.some.injEq, Prod.mk.injEq] at h1
  obtain ⟨rfl, rfl⟩ := h1
  refine ⟨⟨?_, hp, hl⟩, aside_bare hb (read_aside hf), hcase.imp id And.left⟩
  exact hcase.elim Keeps.tabled fun hc => hc.2.tabled

/-- `pool_handle_write` on a descriptor of a served connection. -/
theorem write_ready (R : Ready build w) (hh : Held w b c) (s : Side)
    (h : poolHandleWrite build cnf w (side c s).sock env send = some w') :
    Ready build w' ∧ Aside w w' b c ∧ Slots build cnf w b c w' := by
  have hk := R.kinds hh
  obtain ⟨u, hf, hb⟩ := write_cases hh hk s h
  obtain ⟨hp, hl⟩ := linked_bare hb (write_linked (R.not_ctl hh) R.linked hh hf)
  have hslots := write_slots R.toTabled R.live hh hk s h
  refine ⟨⟨?_, hp, hl⟩, aside_bare hb (write_aside (R.not_ctl hh) R.linked hh hf), hslots⟩
  cases hslots with
  | kept k => exact k.tabled
  | cleared hc => exact hc.tabled
  | moved _ T _ => exact T

/-- A writable descriptor of an end that is connected and has nothing to send. -/
theorem write_idle (cnf : Cnf) (hh : Held w b c) (s : Side) (hk : (side c s).kind ≠ .incomplete)
    (h0 : (side c s).total = 0) (env : CompleteEnv) (send : SendOut) :
    poolHandleWrite build cnf w (side c s).sock env send = some w := by
  rw [write_eq build cnf hh]
  simp [hk, writeRest, deref_ptr hh.block, h0]

end handlers

section outcomes

/-- The pool may lose a connection when this end of it is reported writable. -/
def Exposed (e : ConnEnd) : Prop := e.kind = .incomplete ∨ e.total ≠ 0

instance (e : ConnEnd) : Decidable (Exposed e) :=
  inferInstanceAs (Decidable (e.kind = .incomplete ∨ e.total ≠ 0))

/-- A byte arrives, sockets are full, connects succeed. -/
def calmEnv : EventEnv :=
  ⟨.data [0], ⟨0, EAGAIN⟩, ⟨0, 0, chooseAt 0, .noSocket 1, 0⟩, ⟨.noSocket 1, 0, fun _ => serverA⟩⟩

/-- Peers are gone, connects fail, and there is no socket for another one. -/
def cutEnv : EventEnv :=
  ⟨.data [0], ⟨0, EPIPE⟩, ⟨1, 0, chooseAt 0, .noSocket 1, 0⟩, ⟨.noSocket 1, 0, fun _ => serverA⟩⟩

/-- A byte arrives, a connect is refused, and there is no socket for another one. -/
def refusedEnv : EventEnv :=
  ⟨.data [1], ⟨0, EAGAIN⟩, ⟨111, 101, chooseAt 101, .noSocket 24, 101⟩, calmEnv.ctl⟩

theorem send_waits (h : poolSendData build cnf w p src calmEnv.send = some (w', ret)) : ret = 0 := by
  unfold poolSendData at h
  have hr : sendRetries calmEnv.send.errno = true := by decide
  have hz : calmEnv.send.ret = 0 := rfl
  simp only [hr, hz, Nat.zero_min, Nat.lt_irrefl, ↓reduceIte, Option.bind_eq_bind,
    Option.bind_eq_some_iff, Option.some.injEq, Prod.mk.injEq] at h
  obtain ⟨_, _, _, _, _, rfl⟩ := h
  rfl

theorem read_calm (cnf : Cnf) (R : Ready build w) (hh : Held w b c) (s : Side) :
    ∃ w' ret, poolHandleRead build cnf w (side c s).sock calmEnv.recv calmEnv.send = some (w', ret) ∧
      0 ≤ ret := by
  obtain ⟨w', ret, h, _⟩ := read_slots cnf R.toTabled hh (R.kinds hh) s.other calmEnv.recv calmEnv.send
  rw [other_other] at h
  refine ⟨w', ret, h, ?_⟩
  have hrecv : calmEnv.recv = .data [0] := rfl
  unfold poolHandleRead at h
  rw [hh.route s] at h
  simp only [hrecv, Option.bind_eq_bind, Option.bind_some, deref_ptr hh.block] at h
  split at h
  · rename_i hroom
    have htake : ([0] : List UInt8).take (poolBufSize - (side c s.other).total) = [0] :=
      List.take_of_length_le (by simp only [List.length_singleton]; omega)
    simp only [htake, List.length_singleton, Nat.one_ne_zero, ↓reduceIte, Option.bind_eq_some_iff,
      Prod.exists] at h
    obtain ⟨w1, err, h1, h⟩ := h
    have herr : err = 0 := send_waits h1
    simp only [herr, show (0 : Int) ≠ -EPIPE by decide, ↓reduceIte, Option.bind_eq_some_iff,
      Option.some.injEq, Prod.mk.injEq] at h
    obtain ⟨_, _, _, rfl⟩ := h
    decide
  · simp only [Option.some.injEq, Prod.mk.injEq] at h
    exact h.2 ▸ Int.le_refl 0

theorem write_calm (cnf : Cnf) (R : Ready build w) (hh : Held w b c) (s : Side) :
    ∃ w', poolHandleWrite build cnf w (side c s).sock calmEnv.complete calmEnv.send = some w' ∧
      Keeps build w w' b c := by
  have hk := R.kinds hh
  have rest : ∀ {w1}, Keeps build w w1 b c →
      ∃ w', writeRest build cnf b s calmEnv.send w1 = some w' ∧ Keeps build w w' b c := by
    intro w1 k1
    refine k1.trans fun c1 hh1 hk1 => ?_
    obtain ⟨w2, h2, k2 | ⟨he, _⟩⟩ := write_rest_slots cnf k1.tabled hh1 hk1 s calmEnv.send
    · exact ⟨w2, h2, k2⟩
    · exact absurd he (by decide)
  rw [write_eq build cnf hh]
  split
  · rename_i hi
    obtain ⟨rfl, _⟩ := kind_incomplete hk hi
    obtain ⟨w1, h1, k1⟩ := conn_done_keeps cnf R.toTabled hh hk (show calmEnv.complete.soError = 0 from rfl)
    obtain ⟨w2, h2, k2⟩ := rest k1
    refine ⟨w2, ?_, k2⟩
    rw [show poolHandleConnComplete build cnf w (ptr b .dst) calmEnv.complete = some (w1, 0) from h1]
    simpa using h2
  · obtain ⟨w2, h2, k2⟩ := rest (.refl R.toTabled hh hk)
    exact ⟨w2, by simpa using h2, k2⟩

theorem send_cut (cnf : Cnf) (T : Tabled build w) (hh : Held w b c) (hk : Kinds c) (s : Side)
    (hc : (side c s).kind ≠ .incomplete) (src : Option EndPtr) :
    ∃ w', poolSendData build cnf w (ptr b s) src cutEnv.send = some (w', -EPIPE) ∧
      Cleared build cnf w w' b c := by
  have k0 : Keeps build w (logs w [sendEv b c s cutEnv.send]) b c :=
    (Keeps.refl T hh hk).frame rfl rfl rfl rfl rfl
  obtain ⟨w1, h1, hcl⟩ := remove_cleared cnf k0 (held_logs hh _) s true
  obtain ⟨stats, hsend⟩ := send_data_eq build cnf hh.block s src cutEnv.send
  have hn : sendLen (side c s) cutEnv.send = 0 := Nat.zero_min _
  have hr : sendRetries EPIPE = false := by decide
  have he : cutEnv.send.errno = EPIPE := rfl
  refine ⟨w1, ?_, hcl⟩
  rw [hsend]
  simp only [hn, hr, he, hc, Nat.lt_irrefl, ↓reduceIte, Bool.false_eq_true, ne_eq, not_false_eq_true,
    h1, Option.bind_some]

theorem write_cut (cnf : Cnf) (R : Ready build w) (hh : Held w b c) (s : Side)
    (he : Exposed (side c s)) :
    ∃ w', poolHandleWrite build cnf w (side c s).sock cutEnv.complete cutEnv.send = some w' ∧
      Cleared build cnf w w' b c := by
  have hk := R.kinds hh
  rw [write_eq build cnf hh]
  by_cases hi : (side c s).kind = .incomplete
  · obtain ⟨rfl, hid⟩ := kind_incomplete hk hi
    obtain ⟨w1, h1, hc⟩ := conn_failed_cleared cnf R.toTabled R.live hh hk hid
      (show cutEnv.complete.soError ≠ 0 by decide) rfl
    refine ⟨w1, ?_, hc⟩
    rw [if_pos hi, show poolHandleConnComplete build cnf w (ptr b .dst) cutEnv.complete =
      some (w1, cutEnv.complete.soError) from h1]
    rw [Option.bind_some, if_pos (show cutEnv.complete.soError ≠ 0 by decide)]
  · have h0 : (side c s).total ≠ 0 := he.resolve_left hi
    obtain ⟨w1, h1, hc⟩ := send_cut cnf R.toTabled hh hk s hi (some (ptr b s.other))
    refine ⟨w1, ?_, hc⟩
    rw [if_neg hi]
    simp only [Option.bind_some, ne_eq, not_true_eq_false, ↓reduceIte, writeRest, deref_ptr hh.block, h0,
      not_false_eq_true, h1]

end outcomes

section slots

/-- The descriptors that are left when a connection is out of the tables. -/
theorem cleared_fds (h : Cleared build cnf w w' b c) :
    (connFds w).Perm (c.dst.sock :: c.inc.sock :: connFds w') := by
  obtain ⟨w1, c1, s, notify, w2, k, hh1, h2, hm⟩ := h.steps
  obtain ⟨c2, hh2, _, hs⟩ := k.held
  have hc : c2 = c1 := Option.some.inj (hh2.block.symm.trans hh1.block)
  subst hc
  obtain ⟨w3, h3, _, hperm⟩ := remove_tabled cnf k.tabled hh1 s notify
  have hw : w3 = w2 := Option.some.inj (h3.symm.trans h2)
  subst hw
  have hd : c2.dst.sock = c.dst.sock := hs .dst
  have hi : c2.inc.sock = c.inc.sock := hs .inc
  rw [← marks_conn_fds k.masked.marks, ← hd, ← hi, marks_conn_fds hm.marks]
  exact hperm

theorem cleared_unrouted (T : Tabled build w) (h : Cleared build cnf w w' b c) (t : Side) :
    w'.routeMap (side c t).sock = none := by
  have hnd : (c.dst.sock :: c.inc.sock :: connFds w').Nodup :=
    (cleared_fds h).nodup_iff.mp (List.nodup_cons.mp T.nodup).2
  obtain ⟨hd, hi⟩ := List.nodup_cons.mp hnd
  have hmem : (side c t).sock ∉ connFds w' := by
    cases t with
    | inc => exact (List.nodup_cons.mp hi).1
    | dst => exact fun hm => hd (List.mem_cons_of_mem _ hm)
  by_contra hr
  exact hmem (h.tabled.mem.mpr hr)

/-- A connection that stays keeps all descriptors in the map. -/
theorem keeps_routed_iff (T : Tabled build w) (k : Keeps build w w' b c) :
    w'.routeMap fd ≠ none ↔ w.routeMap fd ≠ none := by
  rw [← k.tabled.mem, ← T.mem, marks_conn_fds k.masked.marks]

end slots

section reached
open Lib.Run DaemonLedger Descriptors Registry

/-- Every pool of the daemon that runs is between two such calls. -/
theorem orderly_ready {i : Nat} (hd : TablesOrderly build d) (hp : d.pools[i]? = some p) (hs : p.shutdown = false) :
    Ready build (d.world p) := by
  obtain ⟨⟨claim, home, L⟩, ht⟩ := hd
  have L' := pool_ledger L hp
  refine ⟨(ht i p hp).1, fun fd q hq => ?_, ledger_live L' hs⟩
  obtain ⟨b, c, s, _, hh, _, hfd⟩ := served L' hq
  exact ⟨b, c, s, hh, hfd⟩

theorem first_ready (h : exec (daemonStep build cnf ctrl) oneDaemon ops = some d)
    (hp : d.pools ≠ []) (hs : (firstPool d).shutdown = false) : Ready build (firstPool d) := by
  have hd : TablesOrderly build d :=
    exec_invariant (fun _ _ _ => tables_orderly_step) (tables_orderly_init build (by simp) (by decide) Router.init) h
  obtain ⟨p, ps, hcons⟩ := List.exists_cons_of_ne_nil hp
  have hfirst : firstPool d = d.world p := by rw [firstPool, hcons]; rfl
  rw [hfirst] at hs ⊢
  exact orderly_ready hd (show d.pools[0]? = some p by rw [hcons]; rfl) hs

end reached

end Glb.Proofs.EventCalls
