import Glb.Proofs.Descriptors
import Glb.Proofs.Drop

namespace Glb.Proofs.Serving
open Function PoolFrame PoolEvents DaemonSteps Ownership DaemonLedger Registry Blocks FdTable FdSteps
open Descriptors Drop

variable {build : Build} {cnf : Cnf} {ctrl : Ctrl} {d d' : Daemon} {w w' u : World} {v : View}
variable {claim : Owner → Option Fd} {home : Nat → Option Home} {op : DaemonOp}
variable {i b b0 : Nat} {c c' c0 c1 : Conn} {s : Side}

section worlds

theorem held_bare_iff (hw : bare w' = bare w) : Held w' b c ↔ Held w b c :=
  ⟨held_of_bare hw.symm, held_of_bare hw⟩

theorem held_frame (hh : w'.heap = w.heap) (hm : w'.routeMap = w.routeMap) : Held w' b c ↔ Held w b c :=
  ⟨fun h => ⟨hh ▸ h.block, hm ▸ h.route⟩, fun h => ⟨hh ▸ h.block, hm ▸ h.route⟩⟩

theorem held_logs_iff (w : World) (l : List Ev) : Held (logs w l) b c ↔ Held w b c := held_frame rfl rfl

/-- A connection is rewritten on the same descriptors. -/
theorem held_put_iff (hh : Held w b0 c0) (hs : ∀ t, (side c' t).sock = (side c0 t).sock) :
    Held (putConn w b0 c') b c ↔ (b = b0 ∧ c = c') ∨ (b ≠ b0 ∧ Held w b c) := by
  constructor
  · rintro ⟨hb, hr⟩
    rcases update_eq_some (f := w.heap) hb with ⟨rfl, hx⟩ | ⟨hne, hb⟩
    · exact Or.inl ⟨rfl, (Option.some.inj hx).symm⟩
    · exact Or.inr ⟨hne, hb, hr⟩
  · rintro (⟨rfl, rfl⟩ | ⟨hne, hh'⟩)
    · exact held_put hh hs
    · exact ⟨(update_of_ne hne _ w.heap).trans hh'.block, hh'.route⟩

theorem held_gone_iff (cnf : Cnf) (hh : Held w b0 c0) (notify : Bool) :
    Held (gone cnf w b0 c0 notify) b c ↔ b ≠ b0 ∧ Held w b c := by
  refine held_unroute_iff hh (by cases notify <;> rfl) (fun b hne => ?_) (fun c hc => ?_)
  · rw [gone_heap, update_of_ne hne]
  · rw [gone_heap, update_self] at hc
    cases hc

theorem held_detached_iff (hh : Held w b0 c0) : Held (detached w c0) b c ↔ b ≠ b0 ∧ Held w b c :=
  held_unroute_iff hh rfl (fun _ _ => rfl) (fun _ hc => (Option.some.inj (hh.block.symm.trans hc)).symm)

theorem held_ended_iff (cnf : Cnf) (hh : Held w b0 c0) (hs : ∀ t, (side c1 t).sock = (side c0 t).sock)
    (notify : Bool) : Held (gone cnf (putConn w b0 c1) b0 c1 notify) b c ↔ b ≠ b0 ∧ Held w b c := by
  rw [held_gone_iff cnf ((held_put_iff hh hs).mpr (Or.inl ⟨rfl, rfl⟩)) notify, held_put_iff hh hs]
  constructor
  · rintro ⟨hne, ⟨he, _⟩ | ⟨_, h⟩⟩
    · exact absurd he hne
    · exact ⟨hne, h⟩
  · rintro ⟨hne, h⟩
    exact ⟨hne, Or.inr ⟨hne, h⟩⟩

/-- A block that no descriptor leads to is not served. -/
theorem unled_not_held (hb : ∀ {fd q}, w.routeMap fd = some q → q.block ≠ b0) (hh : Held w b c) :
    b ≠ b0 := by
  rintro rfl
  exact hb (hh.route .inc) (ptr_block _ _)

/-- Registering a connection on descriptors that lead nowhere leaves all others. -/
theorem held_attached_iff (hb : ∀ {fd q}, w.routeMap fd = some q → q.block ≠ b0)
    (hi : w.routeMap c0.inc.sock = none) (hd : w.routeMap c0.dst.sock = none)
    (hne : c0.dst.sock ≠ c0.inc.sock) :
    Held (attached w b0 c0) b c ↔ (b = b0 ∧ c = registeredConn c0) ∨ Held w b c := by
  have hmap : (attached w b0 c0).routeMap = update (update w.routeMap c0.inc.sock (some (dstPtr b0)))
      c0.dst.sock (some (incPtr b0)) := rfl
  constructor
  · rintro ⟨hblock, hroute⟩
    rw [attached_heap] at hblock
    rcases update_eq_some hblock with ⟨rfl, hx⟩ | ⟨hbb, hblock⟩
    · exact Or.inl ⟨rfl, (Option.some.inj hx).symm⟩
    · refine Or.inr ⟨hblock, fun t => ?_⟩
      have hr := hroute t
      rw [hmap] at hr
      rcases update_eq_some hr with ⟨_, hx⟩ | ⟨_, hr⟩
      · exact absurd (ptr_inj (Option.some.inj hx : ptr b0 .inc = _)).1.symm hbb
      · rcases update_eq_some hr with ⟨_, hx⟩ | ⟨_, hr⟩
        · exact absurd (ptr_inj (Option.some.inj hx : ptr b0 .dst = _)).1.symm hbb
        · exact hr
  · rintro (⟨rfl, rfl⟩ | hh)
    · refine ⟨by rw [attached_heap, update_self]; rfl, fun t => ?_⟩
      rw [hmap]
      cases t with
      | inc => exact (update_of_ne hne.symm _ _).trans (update_self _ _ _)
      | dst => exact update_self _ _ _
    · have hbb := unled_not_held hb hh
      refine ⟨?_, fun t => ?_⟩
      · rw [attached_heap, update_of_ne hbb]
        exact hh.block
      · have hr := hh.route t
        have h1 : (side c t).sock ≠ c0.inc.sock := by
          intro he
          rw [he, hi] at hr
          cases hr
        have h2 : (side c t).sock ≠ c0.dst.sock := by
          intro he
          rw [he, hd] at hr
          cases hr
        rw [hmap, update_of_ne h2, update_of_ne h1]
        exact hr

theorem held_lost_iff (hb : ∀ {fd q}, w.routeMap fd = some q → q.block ≠ b0) :
    Held (lost cnf w b0 c0 now l) b c ↔ Held w b c := by
  constructor
  · intro hh
    exact ⟨update_none (f := w.heap) hh.block, hh.route⟩
  · intro hh
    exact ⟨(update_of_ne (unled_not_held hb hh) _ w.heap).trans hh.block, hh.route⟩

end worlds

/-- How a step of a pool thread changes which connections the pool serves. -/
inductive Shift (w u : World) (i : Nat) (op : DaemonOp) : Prop
  | same (h : ∀ {b c}, Held u b c ↔ Held w b c)
  | touched {b0 : Nat} {c0 c1 : Conn} (h0 : Held w b0 c0) (ht : Touched w i b0 op c0 c1)
    (hop : ∀ env, op ≠ .ctl i env) (h : ∀ {b c}, Held u b c ↔ (b = b0 ∧ c = c1) ∨ (b ≠ b0 ∧ Held w b c))
  | added {b0 : Nat} {c0 c1 : Conn} {q : List PoolCtl} (hp : w.pipe = .addConn b0 :: q)
    (hc : w.heap b0 = some c0) (ht : Touched w i b0 op c0 c1) (hop : ∃ env, op = .ctl i env)
    (h : ∀ {b c}, Held u b c ↔ (b = b0 ∧ c = c1) ∨ Held w b c)
  | removed (h : ∀ {b c}, Held u b c → Held w b c)
    (hr : ∀ {b c}, Held w b c → Held u b c ∨ u.heap b = none ∨
      (c.dst.kind = .incomplete ∧ u.heap b = some c))

section shifts

/-- One connection goes, and its memory with it. -/
theorem gone_shift (hw : ∀ {b c}, Held w' b c ↔ Held w b c)
    (hu : ∀ {b c}, Held u b c ↔ b ≠ b0 ∧ Held w' b c) (hb : u.heap b0 = none) : Shift w u i op := by
  refine .removed (fun h => hw.mp (hu.mp h).2) (fun {b c} h => ?_)
  by_cases he : b = b0
  · exact Or.inr (Or.inl (he ▸ hb))
  · exact Or.inl (hu.mpr ⟨he, hw.mpr h⟩)

theorem gone_none (cnf : Cnf) (w : World) (b : Nat) (c : Conn) (notify : Bool) :
    (gone cnf w b c notify).heap b = none := by
  rw [gone_heap, update_self]

theorem read_shift (hh : Held w b0 c0) (hk : Kinds c0) (hf : ReadFate cnf w b0 c0 s recv send u) :
    Shift w u i (.read i (side c0 s.other).sock recv send) := by
  have hlogs := fun {l b c} => held_logs_iff (b := b) (c := c) w l
  cases hf with
  | full _ => exact .same Iff.rfl
  | nothing _ => exact .same hlogs
  | closed _ _ => exact gone_shift hlogs (held_gone_iff cnf (held_logs hh _) true) (gone_none _ _ _ _ _)
  | detach _ _ hi =>
    have hiff : ∀ {b c}, Held (detached (logs w [recvEv b0 c0 s []]) c0) b c ↔ b ≠ b0 ∧ Held w b c :=
      fun {b c} => (held_detached_iff (held_logs hh _)).trans (and_congr_right fun _ => hlogs)
    refine .removed (fun h => (hiff.mp h).2) (fun {b c} h => ?_)
    by_cases hb : b = b0
    · subst hb
      have hc : c = c0 := Option.some.inj (h.block.symm.trans hh.block)
      exact Or.inr (Or.inr ⟨hc ▸ hi, h.block⟩)
    · exact Or.inl (hiff.mpr ⟨hb, h⟩)
  | passed avail bytes hr hb h0 _ hs =>
    subst hr
    refine .touched hh (.read hh hk hb h0 hs) (by simp) fun {b c} => ?_
    exact (held_put_iff (held_logs hh _) fun t => (read_fixed c0 s bytes send t).1).trans
      (or_congr_right (and_congr_right fun _ => hlogs))
  | broken bytes _ _ _ _ =>
    exact gone_shift hlogs (held_ended_iff cnf (held_logs hh _) (filled_socks c0 s bytes) true) (gone_none _ _ _ _ _)

/-- What the tables hold of a connection between two attempts to connect. -/
theorem detached_unled (L : Ledger (seen v i w) claim home) (hh : Held w b0 c0) :
    (∀ {fd q}, (detached w c0).routeMap fd = some q → q.block ≠ b0) ∧
    (detached w c0).routeMap c0.inc.sock = none ∧
    ∀ {fd}, (detached w c0).isOpen fd = false →
      (detached w c0).routeMap fd = none ∧ fd ≠ c0.inc.sock := by
  have hmap : (detached w c0).routeMap = update (update w.routeMap c0.dst.sock none) c0.inc.sock none := rfl
  have hclaims := L.claims (held_home L hh) hh.block
  refine ⟨?_, ?_, ?_⟩
  · intro fd q hq hqb
    rw [hmap] at hq
    rcases update_eq_some hq with ⟨_, hx⟩ | ⟨hni, hq⟩
    · cases hx
    rcases update_eq_some hq with ⟨_, hx⟩ | ⟨hnd, hq⟩
    · cases hx
    obtain ⟨b', c', s, _, hh', _, rfl⟩ := served L hq
    have hptr : q = ptr b' s.other := Option.some.inj (hq.symm.trans (hh'.route s))
    rw [hptr, ptr_block] at hqb
    subst hqb
    have hc : c' = c0 := Option.some.inj (hh'.block.symm.trans hh.block)
    subst hc
    cases s with
    | inc => exact hni rfl
    | dst => exact hnd rfl
  · rw [hmap, update_self]
  · intro fd hfd
    have hopen : update w.isOpen c0.dst.sock false fd = false := hfd
    rcases eq_or_ne fd c0.dst.sock with rfl | hne
    · refine ⟨?_, (held_socks hh).symm⟩
      rw [hmap, update_of_ne (held_socks hh).symm, update_self]
    · rw [update_of_ne hne] at hopen
      have hun : ∀ {o x}, claim o = some x → fd ≠ x := by
        rintro o x ho rfl
        exact L.sound.unclaimed hopen o ho
      have hni : fd ≠ c0.inc.sock := hun (hclaims .inc)
      refine ⟨?_, hni⟩
      rw [hmap, update_of_ne hni, update_of_ne hne]
      by_contra hr
      obtain ⟨q, hq⟩ := Option.ne_none_iff_exists'.mp hr
      obtain ⟨b', c', s, hb', hh', _, rfl⟩ := served L hq
      exact hun (L.claims hb' hh'.block s) rfl

/-- The next attempt to connect is to another server or socket, with the same contents. -/
theorem held_moved_iff (L : Ledger (seen v i w) claim home) (hh : Held w b0 c0) (env : CompleteEnv)
    (addr : SockAddr) (ho : (detached (rerouted cnf w c0 env) c0).isOpen fd = false) :
    Held (attached (opened (detached (rerouted cnf w c0 env) c0) fd) b0 (onSock (retarget c0 addr) fd)) b c ↔
      (b = b0 ∧ c = registeredConn (onSock (retarget c0 addr) fd)) ∨ (b ≠ b0 ∧ Held w b c) := by
  have Lr : Ledger (seen v i (rerouted cnf w c0 env)) claim home := L
  have hr : Held (rerouted cnf w c0 env) b0 c0 := ⟨hh.block, hh.route⟩
  obtain ⟨hled, hinc, hfresh⟩ := detached_unled Lr hr
  obtain ⟨hfd, hne⟩ := hfresh ho
  have hopened : Held (opened (detached (rerouted cnf w c0 env) c0) fd) b c ↔
    Held (detached (rerouted cnf w c0 env) c0) b c := held_frame rfl rfl
  refine Iff.trans ?_ (or_congr_right (hopened.trans ((held_detached_iff hr).trans
    (and_congr_right fun _ => held_frame rfl rfl))))
  apply held_attached_iff
  · exact hled
  · exact hinc
  · exact hfd
  · exact hne

theorem write_shift (L : Ledger (seen v i w) claim home) (hh : Held w b0 c0) (hk : Kinds c0)
    (hf : WriteFate cnf w b0 c0 s env send u) :
    Shift w u i (.write i (side c0 s).sock env send) := by
  have hlogs := fun {l b c} => held_logs_iff (b := b) (c := c) w l
  have hrer : ∀ {b c}, Held (rerouted cnf w c0 env) b c ↔ Held w b c := held_frame rfl rfl
  cases hf with
  | drained h0 => exact .touched hh (.settled hk h0) (by simp) (held_put_iff hh (settled_socks c0 s))
  | passed h0 hs =>
    refine .touched hh (.written hk h0 hs) (by simp) fun {b c} => ?_
    refine (held_put_iff (held_logs hh _) fun t => ?_).trans (or_congr_right (and_congr_right fun _ => hlogs))
    rw [(sent_conn_fixed _ s send true t).1, settled_socks]
  | broken h0 =>
    exact gone_shift hlogs (held_ended_iff cnf (held_logs hh _) (settled_socks c0 s) true) (gone_none _ _ _ _ _)
  | refused _ _ _ =>
    exact gone_shift hrer (held_ended_iff cnf (hrer.mpr hh) (by intro t; cases t <;> rfl) false) (gone_none _ _ _ _ _)
  | moved addr fd hs hi _ hp ho =>
    subst hs
    exact .touched hh (.moved addr fd hp hi) (by simp) (held_moved_iff L hh env addr ho)
  | abandoned addr l hs hi _ _ =>
    obtain ⟨hled, _, _⟩ := detached_unled (w := rerouted cnf w c0 env) L (hrer.mpr hh)
    exact gone_shift hrer ((held_lost_iff hled).trans (held_detached_iff (hrer.mpr hh))) (update_self _ _ _)

/-- A scan takes connections away and adds none. -/
theorem removals_held (hr : Removals cnf w u) : (∀ {b c}, Held u b c → Held w b c) ∧
    ∀ {b c}, Held w b c → Held u b c ∨ u.heap b = none ∨
      (c.dst.kind = .incomplete ∧ u.heap b = some c) := by
  refine removals_keep (fun v => (∀ {b c}, Held v b c → Held w b c) ∧
    ∀ {b c}, Held w b c → Held v b c ∨ v.heap b = none ∨
      (c.dst.kind = .incomplete ∧ v.heap b = some c)) hr ?_ ?_ ?_ ⟨id, Or.inl⟩
  · rintro v v' hb ⟨hfrom, hto⟩
    have hheap : v'.heap = v.heap := congrArg (fun w => w.heap) hb
    refine ⟨fun h => hfrom ((held_bare_iff hb).mp h), fun h => ?_⟩
    rw [held_bare_iff hb, hheap]
    exact hto h
  · rintro v b1 c1 hh _ ⟨hfrom, hto⟩
    refine ⟨fun h => hfrom ((held_gone_iff cnf hh false).mp h).2, fun {b c} h => ?_⟩
    rw [held_gone_iff cnf hh false, gone_heap]
    by_cases hb : b = b1
    · exact Or.inr (Or.inl (by rw [hb, update_self]))
    · rw [update_of_ne hb]
      exact (hto h).imp (fun h => ⟨hb, h⟩) id
  · rintro v b1 c1 hh _ hi ⟨hfrom, hto⟩
    refine ⟨fun h => hfrom ((held_detached_iff hh).mp h).2, fun {b c} h => ?_⟩
    rw [held_detached_iff hh]
    rcases hto h with hv | hv
    · by_cases hb : b = b1
      · subst hb
        have hc : c = c1 := Option.some.inj (hv.block.symm.trans hh.block)
        exact Or.inr (Or.inr ⟨hc ▸ hi, hv.block⟩)
      · exact Or.inl ⟨hb, hv⟩
    · exact Or.inr hv

theorem popped_held : Held (popped w q) b c ↔ Held w b c := held_frame rfl rfl

theorem scanned_shift (hw : bare w1 = bare (popped w q)) (hr : Removals cnf w1 u)
    (hh : u'.heap = u.heap) (hm : u'.routeMap = u.routeMap) : Shift w u' i op := by
  obtain ⟨hfrom, hto⟩ := removals_held hr
  have hpop : ∀ {b c}, Held w1 b c ↔ Held w b c := fun {b c} =>
    (held_bare_iff hw).trans popped_held
  have hu : ∀ {b c}, Held u' b c ↔ Held u b c := held_frame hh hm
  refine .removed (fun h => hpop.mp (hfrom (hu.mp h))) (fun h => ?_)
  rw [hu, hh]
  exact hto (hpop.mpr h)

/-- The connections of a pool after it has taken one from its pipe. -/
theorem held_joined_iff (S : Spare w b0 c0) (hsock : Socketed (popped w q) c0 w1 c1) :
    Held (attached w1 b0 c1) b c ↔ (b = b0 ∧ c = registeredConn c1) ∨ Held w b c := by
  rcases hsock with ⟨h0, rfl, rfl⟩ | ⟨h0, fd, hpos, hfree, rfl, rfl⟩
  · obtain ⟨hd, _, hne⟩ := S.dst h0
    exact (held_attached_iff (w := popped w q) S.unled S.inc.1 hd hne).trans (or_congr_right popped_held)
  · obtain ⟨hd, _, hne⟩ := S.fresh hfree
    refine Iff.trans ?_ (or_congr_right (held_frame rfl rfl))
      (b := _ ∨ Held (opened (popped w q) fd) b c)
    apply held_attached_iff
    · exact S.unled
    · exact S.inc.1
    · exact hd
    · exact hne

theorem added_shift (L : Ledger (seen v i w) claim home) (hs : w.shutdown = false)
    (hp : w.pipe = .addConn b0 :: q) (hc : w.heap b0 = some c0) (env : CtlEnv)
    (hsock : Socketed (popped w q) c0 w1 c1) : Shift w (attached w1 b0 c1) i (.ctl i env) := by
  obtain ⟨c, S⟩ := ledger_spare L hs hp
  have hcc : c = c0 := Option.some.inj (S.block.symm.trans hc)
  subst hcc
  have ht : Touched w i b0 (.ctl i env) c (registeredConn c1) := by
    rcases hsock with ⟨h0, _, rfl⟩ | ⟨h0, fd, hpos, hfree, _, rfl⟩
    · exact .added (Or.inl ⟨h0, rfl, rfl⟩)
    · exact .added (Or.inr ⟨h0, fd, hpos, hfree, rfl, rfl⟩)
  exact .added hp hc ht ⟨env, rfl⟩ (held_joined_iff S hsock)

/-- Every step of a pool thread is one of the four shifts. -/
theorem fate_shift (L : Ledger (seen v i w) claim home) (hs : w.shutdown = false)
    (hf : Fate cnf i w op u) : Shift w u i op := by
  cases hf with
  | read hh hk hf => exact read_shift hh hk hf
  | write hh hk hf => exact write_shift L hh hk hf
  | @lost b c q l env hp hc hd hl =>
    obtain ⟨_, S⟩ := ledger_spare L hs hp
    exact .same ((held_lost_iff (w := popped w q) S.unled).trans popped_held)
  | added env hp hc hsock => exact added_shift L hs hp hc env hsock
  | stats env hp => exact .same popped_held
  | dropped env hp hw hr => exact scanned_shift hw hr rfl rfl
  | shutdown env hp hw hr => exact scanned_shift hw hr rfl rfl

end shifts

section daemon

/-- Some pool of the daemon serves the connection. -/
def Serves (d : Daemon) (b : Nat) (c : Conn) : Prop :=
  ∃ (i : Nat) (p : Pool), d.pools[i]? = some p ∧ Held (d.world p) b c

/-- Connections are served as before where `route_map` and the blocks it leads to are. -/
theorem held_same (hm : w'.routeMap = w.routeMap)
    (hb : ∀ {fd q}, w.routeMap fd = some q → w'.heap q.block = w.heap q.block) :
    Held w' b c ↔ Held w b c := by
  have hblock : w.routeMap c.inc.sock = some (ptr b .dst) → w'.heap b = w.heap b := fun hr => hb hr
  constructor
  · intro h
    have hr : ∀ s, w.routeMap (side c s).sock = some (ptr b s.other) := hm ▸ h.route
    exact ⟨(hblock (hr .inc)).symm.trans h.block, hr⟩
  · intro h
    exact ⟨(hblock (h.route .inc)).trans h.block, hm.symm ▸ h.route⟩

theorem step_untouched (hs : Step cnf ctrl d op d') :
    Untouched d d' ∨ ∃ i p u w', PoolStep cnf d op d' i p u w' := by
  cases hs with
  | accept _ _ _ h =>
    left
    cases h <;> exact .same rfl rfl
  | connected _ h =>
    left
    cases h <;> exact .same rfl rfl
  | addConn _ h => exact Or.inl (add_untouched h)
  | pool h => exact Or.inr ⟨_, _, _, _, h⟩
  | request h =>
    obtain ⟨hs, hh, _⟩ := request_frame h
    exact Or.inl (.signalled hs hh)
  | drop dst => exact Or.inl (.signalled (bcast_signalled _ (by simp)) rfl)
  | destroy => exact Or.inl (.signalled (bcast_signalled _ (by simp)) rfl)

/-- What one step of the daemon does to the connections of each pool. -/
theorem step_shift (L : Ledger (view d) claim home) (hs : Step cnf ctrl d op d') {j : Nat} {p' : Pool}
    (hp' : d'.pools[j]? = some p') :
    ∃ p, d.pools[j]? = some p ∧ Shift (d.world p) (d'.world p') j op := by
  rcases step_untouched hs with hu | ⟨i, p, u, w', hp, hrun, hf, hb, rfl⟩
  · obtain ⟨p, pipe, hp, rfl⟩ := hu.pools hp'
    exact ⟨p, hp, .same (held_same rfl (hu.routed L hp))⟩
  · have hget : (d.pools.set i w'.toPool)[j]? = some p' := hp'
    rw [List.getElem?_set] at hget
    split at hget
    · rename_i hij
      subst hij
      split at hget
      · simp only [Option.some.injEq] at hget
        subst hget
        have L' := pool_ledger L hp
        have hheap : w'.heap = u.heap := congrArg (fun w => w.heap) hb
        refine ⟨p, hp, ?_⟩
        have hshift := fate_shift L' hrun hf
        cases hshift with
        | same h => exact .same ((held_bare_iff hb).trans h)
        | touched h0 ht hop h => exact .touched h0 ht hop ((held_bare_iff hb).trans h)
        | added hq hc ht hop h => exact .added hq hc ht hop ((held_bare_iff hb).trans h)
        | removed h hr =>
          refine .removed (fun x => h ((held_bare_iff hb).mp x)) (fun x => ?_)
          have hto := hr x
          rw [← held_bare_iff hb, ← hheap] at hto
          exact hto
      · cases hget
    · rename_i hij
      refine ⟨p', hget, .same fun {b c} => held_same rfl fun {fd q} hq => ?_⟩
      have hheap := apart_heap L hp hget (Ne.symm hij) hq hf hb
      exact hheap

/-- A connection that some pool serves has both its descriptors booked. -/
theorem serves_claims (L : Ledger (view d) claim home) (h : Serves d b c) (s : Side) :
    claim (.conn b s) = some (side c s).sock := by
  obtain ⟨i, p, hp, hh⟩ := h
  have L' := pool_ledger L hp
  exact L'.claims (held_home L' hh) hh.block s

theorem serves_block (h : Serves d b c) : d.heap b = some c := by
  obtain ⟨_, _, _, hh⟩ := h
  exact hh.block

/-- What a step makes of a server end that is connected before or after it. -/
theorem touched_complete (ht : Touched w i b op c c') (h0 : 0 ≤ c.dst.sock)
    (hk : c.dst.kind ≠ .incomplete ∨ c'.dst.kind ≠ .incomplete) :
    c'.dst.kind ≠ .incomplete ∧ c'.dst.sock = c.dst.sock := by
  cases ht with
  | @read _ s avail bytes send hh hkinds hb hpos =>
    obtain ⟨hsock, hkind, _⟩ := read_fixed c s bytes send .dst
    simp only [side] at hsock hkind
    rw [hkind, or_self] at hk
    exact ⟨hkind ▸ hk, hsock⟩
  | @settled _ s env send hkinds =>
    refine ⟨?_, settled_socks c s .dst⟩
    unfold settled at hk ⊢
    split
    · simp [completed]
    · rename_i hi
      simpa [hi] using hk
  | @written _ s env send hkinds hne =>
    have hkind := (sent_conn_fixed (PoolEvents.settled c s) s send true .dst).2.1
    have hsock := (sent_conn_fixed (PoolEvents.settled c s) s send true .dst).1
    refine ⟨?_, hsock.trans (settled_socks c s .dst)⟩
    have hk' : c.dst.kind ≠ .incomplete ∨ (PoolEvents.settled c s).dst.kind ≠ .incomplete :=
      hk.imp_right fun h => hkind ▸ h
    refine fun he => ?_
    have hset : (PoolEvents.settled c s).dst.kind = .incomplete := hkind.symm.trans he
    unfold PoolEvents.settled at hset hk'
    split at hset
    · cases hset
    · rename_i hi
      simp only [hi, ↓reduceIte, or_self] at hk'
      exact hk' hset
  | moved addr fd hp hi => exact absurd hi (by simpa [registeredConn, registered, onSock, retarget] using hk)
  | @added _ c1 w1 env hs =>
    rcases hs with ⟨_, _, rfl⟩ | ⟨hneg, _⟩
    · exact ⟨by simpa [registeredConn, registered] using hk, rfl⟩
    · exact absurd h0 (Int.not_le.mpr hneg)

/-- A connected server end keeps its socket for as long as its block is in memory. -/
theorem serves_forward (L : Ledger (view d) claim home) (hs : Step cnf ctrl d op d')
    (h : Serves d b c) (hc : d'.heap b = some c')
    (hk : c.dst.kind ≠ .incomplete ∨ c'.dst.kind ≠ .incomplete) :
    c'.dst.kind ≠ .incomplete ∧ c'.dst.sock = c.dst.sock ∧ Serves d' b c' := by
  have h0 : 0 ≤ c.dst.sock := Int.le_of_lt (L.pos (serves_claims L h .dst))
  obtain ⟨i, p, hp, hh⟩ := h
  obtain ⟨p', hp'⟩ : ∃ p', d'.pools[i]? = some p' := by
    have hlen : i < d'.pools.length := (step_pools hs).symm ▸ (List.getElem?_eq_some_iff.mp hp).1
    exact ⟨_, List.getElem?_eq_getElem hlen⟩
  obtain ⟨p2, hp2, hshift⟩ := step_shift L hs hp'
  have hpp : p2 = p := Option.some.inj (hp2.symm.trans hp)
  subst hpp
  have stays : Held (d'.world p') b c → c'.dst.kind ≠ .incomplete ∧ c'.dst.sock = c.dst.sock ∧
      Serves d' b c' := by
    intro hh'
    have hcc : c = c' := Option.some.inj (hh'.block.symm.trans hc)
    subst hcc
    exact ⟨hk.elim id id, rfl, i, p', hp', hh'⟩
  cases hshift with
  | same hiff => exact stays (hiff.mpr hh)
  | @touched b0 c0 c1 hh0 ht _ hiff =>
    by_cases hb : b = b0
    · subst hb
      have hcc : c0 = c := Option.some.inj (hh0.block.symm.trans hh.block)
      subst hcc
      have hh' : Held (d'.world p') b c1 := hiff.mpr (Or.inl ⟨rfl, rfl⟩)
      have hc1 : c1 = c' := Option.some.inj (hh'.block.symm.trans hc)
      subst hc1
      obtain ⟨hkind, hsock⟩ := touched_complete ht h0 hk
      exact ⟨hkind, hsock, i, p', hp', hh'⟩
    · exact stays (hiff.mpr (Or.inr ⟨hb, hh⟩))
  | added _ _ _ _ hiff => exact stays (hiff.mpr (Or.inr hh))
  | removed _ hr =>
    rcases hr hh with hh' | hnone | ⟨hi, hsome⟩
    · exact stays hh'
    · rw [show d'.heap b = none from hnone] at hc
      cases hc
    · have hcc : c = c' := Option.some.inj (hsome.symm.trans hc)
      subst hcc
      exact absurd hi (hk.elim id id)

end daemon

end Glb.Proofs.Serving
