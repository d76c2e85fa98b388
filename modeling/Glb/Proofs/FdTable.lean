import Glb.Lib.Keyed
import Glb.Proofs.Ownership
import Glb.Proofs.PoolFrame

namespace Glb.Proofs.FdTable
open Function Lib.Keyed Lib.SwapRemove PoolFrame Ownership

variable {build : Build} {cnf : Cnf} {w w' : World} {b j k : Nat} {c : Conn} {s : Side} {fd : Fd}

/-- The descriptors behind slot 0, which belongs to the pipe. -/
def connFds (w : World) : List Fd := (w.fdset.pollfds.map PollFd.fd).tail

/-- The end is registered: its descriptor leads to the other end. -/
def Routed (w : World) (b : Nat) (c : Conn) (s : Side) : Prop :=
  w.heap b = some c ∧ w.routeMap (side c s).sock = some (ptr b s.other)

/-- `route_map` and the descriptor set agree. -/
structure Tabled (build : Build) (w : World) : Prop where
  entry : ∀ {fd q}, w.routeMap fd = some q →
    ∃ b c s, Routed w b c s ∧ Kinds c ∧ q = ptr b s.other ∧ fd = (side c s).sock
  slots : w.fdset.pollfds.map PollFd.fd = w.ctlRecv :: connFds w
  nodup : (w.ctlRecv :: connFds w).Nodup
  mem : ∀ {fd}, fd ∈ connFds w ↔ w.routeMap fd ≠ none
  idx : build = .poll → ∀ {b c s}, Routed w b c s → ∃ x, w.fdset.pollfds[w.fdset.fdsIdx (ptr b s)]? =
    some x ∧ x.fd = (side c s).sock ∧ x.events = (side c s).events

theorem ptr_inj (h : ptr b s = ptr b' s') : b = b' ∧ s = s' := by
  have hb : b = b' := by simpa using congrArg EndPtr.block h
  refine ⟨hb, ?_⟩
  have ho := congrArg EndPtr.off h
  cases s <;> cases s' <;> simp [ptr, incPtr, dstPtr, poolEndSize] at ho ⊢

theorem other_inj (h : s.other = s'.other) : s = s' := by
  rw [← other_other s, h, other_other]

/-- A descriptor belongs to one end. -/
theorem Routed.unique (h : Routed w b c s) (h' : Routed w b' c' s')
    (hs : (side c s).sock = (side c' s').sock) : b = b' ∧ c = c' ∧ s = s' := by
  have hp : ptr b s.other = ptr b' s'.other := Option.some.inj (h.2.symm.trans (hs ▸ h'.2))
  obtain ⟨hb, ho⟩ := ptr_inj hp
  subst hb
  exact ⟨rfl, Option.some.inj (h.1.symm.trans h'.1), other_inj ho⟩

theorem Tabled.kinds (T : Tabled build w) (h : Routed w b c s) : Kinds c := by
  obtain ⟨b', c', s', h', hk, _, hs⟩ := T.entry h.2
  exact (h.unique h' hs).2.1 ▸ hk

/-- A descriptor set without one descriptor. -/
structure Cut (build : Build) (w w1 : World) (b : Nat) (c : Conn) (s : Side) : Prop where
  bare : bare w1 = bare w
  perm : (w.fdset.pollfds.map PollFd.fd).Perm ((side c s).sock :: w1.fdset.pollfds.map PollFd.fd)
  slot : (w1.fdset.pollfds.map PollFd.fd)[0]? = some w.ctlRecv
  idx : build = .poll → ∀ {b' c' s'}, Routed w b' c' s' → (side c' s').sock ≠ (side c s).sock →
    ∃ x, w1.fdset.pollfds[w1.fdset.fdsIdx (ptr b' s')]? = some x ∧ x.fd = (side c' s').sock ∧
      x.events = (side c' s').events

theorem Tabled.routed_mem (T : Tabled build w) (h : Routed w b c s) : (side c s).sock ∈ connFds w :=
  T.mem.mpr (by rw [h.2]; simp)

theorem Tabled.not_ctl (T : Tabled build w) (h : Routed w b c s) : (side c s).sock ≠ w.ctlRecv := by
  intro he
  exact (List.nodup_cons.mp T.nodup).1 (he ▸ T.routed_mem h)

theorem del_epoll (T : Tabled .epoll w) (h : Routed w b c s) :
    ∃ w1, poolFdsDel .epoll w (ptr b s) = some w1 ∧ Cut .epoll w w1 b c s := by
  have hmem : (side c s).sock ∈ w.fdset.pollfds.map PollFd.fd :=
    T.slots ▸ List.mem_cons_of_mem _ (T.routed_mem h)
  obtain ⟨x, hx, hfd⟩ := List.mem_map.mp hmem
  have hany : w.fdset.pollfds.any (fun x => x.fd = (side c s).sock) = true :=
    List.any_eq_true.mpr ⟨x, hx, by simpa using hfd⟩
  obtain ⟨y, l1, l2, hl1, hy, hl, he⟩ := List.exists_of_eraseP (p := fun x : PollFd =>
    decide (x.fd = (side c s).sock)) hx (by simpa using hfd)
  have hyfd : y.fd = (side c s).sock := by simpa using hy
  refine ⟨{ w with fdset := { w.fdset with pollfds := l1 ++ l2 } }, ?_, rfl, ?_, ?_, nofun⟩
  · unfold poolFdsDel
    simp only [deref_ptr h.1, Option.bind_eq_bind, Option.bind_some, hany, ↓reduceIte, he]
  · rw [hl, ← hyfd]
    exact List.perm_middle.map PollFd.fd
  · -- slot 0 is not the one that is erased
    have hslots := T.slots
    rw [hl] at hslots
    cases l1 with
    | nil =>
      simp only [List.nil_append, List.map_cons, List.cons.injEq] at hslots
      exact absurd (hyfd.symm.trans hslots.1) (T.not_ctl h)
    | cons z l1 =>
      simp only [List.cons_append, List.map_cons, List.cons.injEq] at hslots
      simp [hslots.1]

theorem Tabled.slot_inj (T : Tabled build w) {y z : PollFd} (hj : w.fdset.pollfds[j]? = some y)
    (hk : w.fdset.pollfds[k]? = some z) (h : y.fd = z.fd) : j = k := by
  have hn : (w.fdset.pollfds.map PollFd.fd).Nodup := T.slots ▸ T.nodup
  exact key_inj hn hj hk h.symm

theorem Tabled.slot_zero (T : Tabled build w) : ∃ y, w.fdset.pollfds[0]? = some y ∧ y.fd = w.ctlRecv := by
  have hslot : (w.fdset.pollfds.map PollFd.fd)[0]? = some w.ctlRecv := by rw [T.slots]; rfl
  rw [List.getElem?_map] at hslot
  exact Option.map_eq_some_iff.mp hslot

/-- Every slot but the first belongs to an end. -/
theorem Tabled.slot_conn (T : Tabled build w) {y : PollFd} (hy : w.fdset.pollfds[j]? = some y)
    (hj : j ≠ 0) : ∃ b c s, Routed w b c s ∧ Kinds c ∧ y.fd = (side c s).sock := by
  have hm : y.fd ∈ w.fdset.pollfds.map PollFd.fd := List.mem_map_of_mem (List.mem_of_getElem? hy)
  rw [T.slots] at hm
  rcases List.mem_cons.mp hm with h0 | hm
  · obtain ⟨z, hz, hzc⟩ := T.slot_zero
    exact absurd (T.slot_inj hy hz (h0.trans hzc.symm)) hj
  · obtain ⟨q, hq⟩ := Option.ne_none_iff_exists'.mp (T.mem.mp hm)
    obtain ⟨b, c, s, h, hk, _, hs⟩ := T.entry hq
    exact ⟨b, c, s, h, hk, hs⟩

theorem del_poll (T : Tabled .poll w) (h : Routed w b c s) :
    ∃ w1, poolFdsDel .poll w (ptr b s) = some w1 ∧ Cut .poll w w1 b c s := by
  obtain ⟨x, hx, hfd, _⟩ := T.idx rfl h
  obtain ⟨z, hz, hzc⟩ := T.slot_zero
  have hlt : w.fdset.fdsIdx (ptr b s) < w.fdset.pollfds.length := (List.getElem?_eq_some_iff.mp hx).1
  have hne : w.fdset.fdsIdx (ptr b s) ≠ 0 := by
    intro h0
    rw [h0, hz, Option.some.injEq] at hx
    exact T.not_ctl h (hfd.symm.trans (hx ▸ hzc))
  have hlast : w.fdset.pollfds.getLast? = some (w.fdset.pollfds.get ⟨w.fdset.pollfds.length - 1, by omega⟩) := by
    rw [List.getLast?_eq_getElem?]
    exact List.getElem?_eq_getElem _
  generalize w.fdset.pollfds.get ⟨w.fdset.pollfds.length - 1, by omega⟩ = last at hlast
  have hget : w.fdset.pollfds[w.fdset.pollfds.length - 1]? = some last := by
    rw [← List.getLast?_eq_getElem?]
    exact hlast
  -- the last slot is that of a connection
  obtain ⟨b1, c1, s1, h1, hk1, hs1⟩ := T.slot_conn hget (by omega)
  refine ⟨{ w with fdset := { w.fdset with
    pollfds := swapRemove w.fdset.pollfds (w.fdset.fdsIdx (ptr b s))
    fdsIdx := update w.fdset.fdsIdx (ptr b1 s1) (w.fdset.fdsIdx (ptr b s)) } }, ?_, rfl, ?_, ?_, ?_⟩
  · unfold poolFdsDel
    simp only [deref_ptr h.1, Option.bind_eq_bind, Option.bind_some, hlast, hs1, end_by_fd h1.1 h1.2 hk1,
      FdSet.fdMax, hlt, ↓reduceIte]
  · rw [← hfd]
    exact (swapRemove_perm _ _ x hx).map PollFd.fd
  · rw [List.getElem?_map, swapRemove_getElem? _ _ _ hlt (by omega), if_neg (Ne.symm hne), hz]
    exact congrArg some hzc
  · intro _ b' c' s' h' hfd'
    obtain ⟨y, hy, hyfd, hyev⟩ := T.idx rfl h'
    have hyi : w.fdset.fdsIdx (ptr b' s') ≠ w.fdset.fdsIdx (ptr b s) := by
      intro he
      rw [he, hx, Option.some.injEq] at hy
      exact hfd' (hyfd.symm.trans (hy ▸ hfd))
    have hyl := (List.getElem?_eq_some_iff.mp hy).1
    by_cases hq : ptr b' s' = ptr b1 s1
    · -- the moved slot
      obtain ⟨rfl, rfl⟩ := ptr_inj hq
      have hc : c1 = c' := Option.some.inj (h1.1.symm.trans h'.1)
      subst hc
      have hend := T.slot_inj hy hget (hyfd.trans hs1.symm)
      rw [hend, hget, Option.some.injEq] at hy
      refine ⟨last, ?_, hs1, hy ▸ hyev⟩
      simp only [update_self]
      rw [swapRemove_getElem? _ _ _ hlt (by omega), if_pos rfl]
      exact hlast
    · refine ⟨y, ?_, hyfd, hyev⟩
      have hnl : w.fdset.fdsIdx (ptr b' s') ≠ w.fdset.pollfds.length - 1 := by
        intro he
        rw [he, hget, Option.some.injEq] at hy
        obtain ⟨hb, _, hs⟩ := h1.unique h' (hs1.symm.trans (hy ▸ hyfd))
        exact hq (by rw [hb, hs])
      simp only [update_of_ne hq]
      rw [swapRemove_getElem? _ _ _ hlt (by omega), if_neg hyi]
      exact hy

theorem del_cut (T : Tabled build w) (h : Routed w b c s) :
    ∃ w1, poolFdsDel build w (ptr b s) = some w1 ∧ Cut build w w1 b c s := by
  cases build with
  | epoll => exact del_epoll T h
  | poll => exact del_poll T h

theorem routed_unroute (h : Routed (unroute w fd cl) b c s) : Routed w b c s ∧ (side c s).sock ≠ fd := by
  have hne : (side c s).sock ≠ fd := by
    intro he
    have hr := h.2
    rw [he] at hr
    simp [unroute] at hr
  refine ⟨⟨by cases cl <;> exact h.1, ?_⟩, hne⟩
  have hr := h.2
  cases cl <;> simpa [unroute, hne] using hr

/-- `pool_reset_conn_end` succeeds and keeps the table in order. -/
theorem reset_tabled (T : Tabled build w) (h : Routed w b c s) (cl : Bool) :
    ∃ w', poolResetConnEnd build w (ptr b s) cl = some w' ∧ Tabled build w' ∧
      bare w' = bare (unroute w (side c s).sock cl) ∧
      (connFds w).Perm ((side c s).sock :: connFds w') := by
  obtain ⟨w1, h1, hcut⟩ := del_cut T h
  have hheap : w1.heap = w.heap := congrArg (fun w => w.heap) hcut.bare
  have hctl : w1.ctlRecv = w.ctlRecv := congrArg (fun w => w.ctlRecv) hcut.bare
  have hmap : w1.routeMap = w.routeMap := congrArg (fun w => w.routeMap) hcut.bare
  have hres : poolResetConnEnd build w (ptr b s) cl = some (unroute w1 (side c s).sock cl) := by
    unfold poolResetConnEnd
    simp only [h1, Option.bind_eq_bind, Option.bind_some, deref_ptr (hheap ▸ h.1)]
    cases cl <;> rfl
  have hbare := reset_spec h.1 s hres
  have hfdset : (unroute w1 (side c s).sock cl).fdset = w1.fdset := by cases cl <;> rfl
  have hctl' : (unroute w1 (side c s).sock cl).ctlRecv = w.ctlRecv := by cases cl <;> exact hctl
  have hslots : w1.fdset.pollfds.map PollFd.fd = w.ctlRecv :: connFds w1 := by
    unfold connFds
    have := hcut.slot
    cases hl : w1.fdset.pollfds.map PollFd.fd with
    | nil => simp [hl] at this
    | cons x l =>
      simp only [hl, List.getElem?_cons_zero, Option.some.injEq] at this
      rw [this]
      rfl
  have hperm : (connFds w).Perm ((side c s).sock :: connFds w1) := by
    have hp := hcut.perm
    rw [hslots, T.slots] at hp
    exact (hp.trans (List.Perm.swap _ _ _)).cons_inv
  have hconn : connFds (unroute w1 (side c s).sock cl) = connFds w1 := by unfold connFds; rw [hfdset]
  have hroutes : ∀ x, (unroute w1 (side c s).sock cl).routeMap x =
      if x = (side c s).sock then none else w.routeMap x := by
    intro x
    rw [← hmap]
    cases cl <;> simp [unroute, Function.update_apply]
  have hrouted : ∀ {b' c' s'}, Routed (unroute w1 (side c s).sock cl) b' c' s' →
      Routed w b' c' s' ∧ (side c' s').sock ≠ (side c s).sock := by
    intro b' c' s' h'
    obtain ⟨hr, hne⟩ := routed_unroute h'
    exact ⟨⟨hheap ▸ hr.1, hmap ▸ hr.2⟩, hne⟩
  have hn : ((side c s).sock :: connFds w1).Nodup := hperm.nodup (List.nodup_cons.mp T.nodup).2
  refine ⟨_, hres, ⟨?_, ?_, ?_, ?_, ?_⟩, hbare, hconn.symm ▸ hperm⟩
  · intro x q hq
    rw [hroutes] at hq
    split at hq
    · cases hq
    · rename_i hx
      obtain ⟨b', c', s', h', hk, hqe, hxe⟩ := T.entry hq
      have hr' : (unroute w1 (side c s).sock cl).routeMap (side c' s').sock = some (ptr b' s'.other) := by
        rw [hroutes, ← hxe, if_neg hx, hq, hqe]
      have hh' : (unroute w1 (side c s).sock cl).heap b' = some c' := by
        cases cl <;> exact hheap ▸ h'.1
      exact ⟨b', c', s', ⟨hh', hr'⟩, hk, hqe, hxe⟩
  · rw [hfdset, hconn, hctl', hslots]
  · rw [hconn, hctl']
    refine List.nodup_cons.mpr ⟨?_, (List.nodup_cons.mp hn).2⟩
    intro hm
    exact (List.nodup_cons.mp T.nodup).1 (hperm.mem_iff.mpr (List.mem_cons_of_mem _ hm))
  · intro x
    rw [hconn, hroutes]
    constructor
    · intro hm
      have hne : x ≠ (side c s).sock := by
        intro he
        exact (List.nodup_cons.mp hn).1 (he ▸ hm)
      rw [if_neg hne]
      exact T.mem.mp (hperm.mem_iff.mpr (List.mem_cons_of_mem _ hm))
    · intro hr
      split at hr
      · exact absurd rfl hr
      · rename_i hne
        exact List.mem_of_ne_of_mem hne (hperm.mem_iff.mp (T.mem.mpr hr))
  · intro hb b' c' s' h'
    obtain ⟨hr, hne⟩ := hrouted h'
    rw [hfdset]
    exact hcut.idx hb hr hne

theorem held_routed (hh : Held w b c) (s : Side) : Routed w b c s := ⟨hh.block, hh.route s⟩

theorem held_socks (hh : Held w b c) : c.inc.sock ≠ c.dst.sock := by
  intro he
  have hs := ((held_routed hh .inc).unique (held_routed hh .dst) he).2.2
  cases hs

/-- Both descriptors of a connection are taken out of the map. -/
theorem unrouted_socks (map : Fd → Option EndPtr) (c : Conn) (t : Side) :
    update (update map c.dst.sock none) c.inc.sock none (side c t).sock = none := by
  cases t with
  | inc => exact update_self _ _ _
  | dst => by_cases h : c.dst.sock = c.inc.sock <;> simp [side, update_apply, h]

/-- The table depends on the blocks that descriptors lead to only. -/
theorem Tabled.congr (T : Tabled build w)
    (hh : ∀ {fd q}, w.routeMap fd = some q → w'.heap q.block = w.heap q.block)
    (hr : w'.routeMap = w.routeMap) (hc : w'.ctlRecv = w.ctlRecv) (hf : w'.fdset = w.fdset) :
    Tabled build w' := by
  have hconn : connFds w' = connFds w := by simp only [connFds, hf]
  have hheap : ∀ {b fd s}, w.routeMap fd = some (ptr b s) → w'.heap b = w.heap b := by
    intro b fd s hfd
    simpa using hh hfd
  have hrouted : ∀ {b c s}, Routed w' b c s ↔ Routed w b c s := by
    intro b c s
    simp only [Routed, hr]
    constructor
    · rintro ⟨h1, h2⟩
      exact ⟨(hheap h2).symm.trans h1, h2⟩
    · rintro ⟨h1, h2⟩
      exact ⟨(hheap h2).trans h1, h2⟩
  refine ⟨?_, ?_, ?_, ?_, ?_⟩
  · intro fd q hq
    obtain ⟨b, c, s, h, hrest⟩ := T.entry (hr ▸ hq)
    exact ⟨b, c, s, hrouted.mpr h, hrest⟩
  · rw [hf, hc, hconn]
    exact T.slots
  · rw [hc, hconn]
    exact T.nodup
  · intro fd
    rw [hconn, hr]
    exact T.mem
  · intro hb b c s h
    rw [hf]
    exact T.idx hb (hrouted.mp h)

theorem Tabled.frame (T : Tabled build w) (hh : w'.heap = w.heap) (hr : w'.routeMap = w.routeMap)
    (hc : w'.ctlRecv = w.ctlRecv) (hf : w'.fdset = w.fdset) : Tabled build w' :=
  T.congr (fun _ => by rw [hh]) hr hc hf

/-- No descriptor leads to a block whose own two descriptors lead nowhere. -/
theorem Tabled.unrouted (T : Tabled build w) (hc : w.heap b = some c)
    (hn : ∀ s, w.routeMap (side c s).sock = none) (hq : w.routeMap fd = some q) : q.block ≠ b := by
  intro hqb
  obtain ⟨b', c', s', h', _, hqe, hfd⟩ := T.entry hq
  have hbb : b' = b := by rw [← hqb, hqe, ptr_block]
  subst hbb
  have hcc : c' = c := Option.some.inj (h'.1.symm.trans hc)
  rw [hfd, hcc, hn] at hq
  cases hq

/-- A block that no descriptor leads to may be rewritten. -/
theorem Tabled.rewrite (T : Tabled build w) (hb : ∀ {fd q}, w.routeMap fd = some q → q.block ≠ b)
    (x : Option Conn) : Tabled build { w with heap := update w.heap b x } :=
  T.congr (fun hq => update_of_ne (hb hq) x w.heap) rfl rfl rfl

theorem side_cases (s t : Side) : t = s ∨ t = s.other := by
  cases s <;> cases t <;> simp [Side.other]

/-- An end of a rewritten connection, or one of another. -/
theorem routed_put (h : Routed (putConn w b c') b1 c1 s1) :
    (b1 = b ∧ c1 = c') ∨ (b1 ≠ b ∧ Routed w b1 c1 s1) := by
  rcases update_eq_some (f := w.heap) h.1 with ⟨rfl, hx⟩ | ⟨hne, hx⟩
  · exact Or.inl ⟨rfl, (Option.some.inj hx).symm⟩
  · exact Or.inr ⟨hne, hx, h.2⟩

/-- A connection is rewritten on the same descriptors, and the set keeps its
descriptors with it. -/
theorem Tabled.change (T : Tabled build w) (hh : Held w b c) (fds : FdSet)
    (hs : ∀ t, (side c' t).sock = (side c t).sock) (hk : Kinds c')
    (hf : fds.pollfds.map PollFd.fd = w.fdset.pollfds.map PollFd.fd)
    (hidx : build = .poll → ∀ {b1 c1 s1}, Routed (putConn w b c') b1 c1 s1 →
      ∃ x, fds.pollfds[fds.fdsIdx (ptr b1 s1)]? = some x ∧ x.fd = (side c1 s1).sock ∧
        x.events = (side c1 s1).events) :
    Tabled build { putConn w b c' with fdset := fds } := by
  have hconn : connFds { putConn w b c' with fdset := fds } = connFds w := by
    simp only [connFds, hf]
  refine ⟨?_, ?_, ?_, ?_, hidx⟩
  · intro fd q hq
    obtain ⟨b1, c1, s1, h1, hk1, hqe, hfd⟩ := T.entry hq
    by_cases hb : b1 = b
    · subst hb
      have hc : c1 = c := Option.some.inj (h1.1.symm.trans hh.block)
      subst hc
      exact ⟨b1, c', s1, ⟨put_conn_heap w b1 c', (hs s1).symm ▸ h1.2⟩, hk, hqe, hfd.trans (hs s1).symm⟩
    · exact ⟨b1, c1, s1, ⟨(update_of_ne hb _ w.heap).trans h1.1, h1.2⟩, hk1, hqe, hfd⟩
  · rw [hconn]
    exact hf.trans T.slots
  · rw [hconn]
    exact T.nodup
  · intro fd
    rw [hconn]
    exact T.mem

/-- A connection is rewritten on the same descriptors and waits for the same events. -/
theorem Tabled.put (T : Tabled build w) (hh : Held w b c)
    (hs : ∀ t, (side c' t).sock = (side c t).sock) (hk : Kinds c')
    (he : ∀ t, (side c' t).events = (side c t).events) : Tabled build (putConn w b c') := by
  refine T.change hh w.fdset hs hk rfl ?_
  intro hp b1 c1 s1 h
  rcases routed_put h with ⟨rfl, rfl⟩ | ⟨_, h1⟩
  · rw [hs, he]
    exact T.idx hp (held_routed hh s1)
  · exact T.idx hp h1

/-- `pool_remove_conn` succeeds and keeps the table in order. -/
theorem remove_tabled (cnf : Cnf) (T : Tabled build w) (hh : Held w b c) (s : Side) (notify : Bool) :
    ∃ w', poolRemoveConn build cnf w (side c s).sock notify = some w' ∧ Tabled build w' ∧
      (connFds w).Perm (c.dst.sock :: c.inc.sock :: connFds w') := by
  have hk := T.kinds (held_routed hh s)
  have T0 : Tabled build { w with
      nConns := w.nConns - 1
      stats := { w.stats with connsClosed := w.stats.connsClosed + 1 } } :=
    ⟨T.entry, T.slots, T.nodup, T.mem, T.idx⟩
  obtain ⟨w1, h1, T1, hb1, hp1⟩ := reset_tabled T0 (held_routed hh .dst) true
  have hheap1 : w1.heap b = some c := (congrArg (fun w => w.heap b) hb1).trans hh.block
  have hmap1 : w1.routeMap = update w.routeMap c.dst.sock none := congrArg (fun w => w.routeMap) hb1
  have hr1 : Routed w1 b c .inc := by
    refine ⟨hheap1, ?_⟩
    rw [hmap1]
    exact (update_of_ne (held_socks hh) none w.routeMap).trans (hh.route .inc)
  have second : ∀ cl, ∃ w2, poolResetConnEnd build w1 (ptr b .inc) cl = some w2 ∧ Tabled build w2 ∧
      w2.heap b = some c ∧ (∀ s, w2.routeMap (side c s).sock = none) ∧
      (connFds w).Perm (c.dst.sock :: c.inc.sock :: connFds w2) := by
    intro cl
    obtain ⟨w2, h2, T2, hb2, hp2⟩ := reset_tabled T1 hr1 cl
    have hmap2 : w2.routeMap = update w1.routeMap c.inc.sock none := by
      have := congrArg (fun w => w.routeMap) hb2
      cases cl <;> exact this
    have hheap2 : w2.heap b = some c := by
      have := congrArg (fun w => w.heap b) hb2
      cases cl <;> exact this.trans hheap1
    refine ⟨w2, h2, T2, hheap2, ?_, hp1.trans (hp2.cons _)⟩
    intro s
    rw [hmap2, hmap1]
    exact unrouted_socks w.routeMap c s
  unfold poolRemoveConn
  simp only [remove_ends hh hk s, Option.bind_eq_bind, Option.bind_some]
  rw [h1]
  simp only [Option.bind_some]
  split
  · obtain ⟨w2, h2, T2, hheap2, hnone, hp⟩ := second true
    rw [h2]
    simp only [Option.bind_some, deref_ptr hheap2]
    refine ⟨_, rfl, ?_, ?_⟩
    · have T3 := T2.rewrite (T2.unrouted hheap2 hnone) none
      cases notify <;> exact T3.frame rfl rfl rfl rfl
    · cases notify <;> exact hp
  · obtain ⟨w2, h2, T2, _, _, hp⟩ := second false
    exact ⟨w2, h2, T2, hp⟩

end Glb.Proofs.FdTable
