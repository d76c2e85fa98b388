import Glb.Proofs.EventCalls

namespace Glb.Proofs.LoopBody
open Function PoolFrame PoolEvents FdTable FdSteps Drop Serving EventCalls

variable {build : Build} {cnf : Cnf} {w w' w1 w2 : World} {b : Nat} {c c' : Conn} {s : Side} {fd x : Fd}

/-- The end that a descriptor belongs to. -/
def endAt (w : World) (fd : Fd) : Option ConnEnd := (poolConnEndByFd w fd).bind w.deref

/-- The other descriptor of the connection. -/
def partnerAt (w : World) (fd : Fd) : Option Fd := ((w.routeMap fd).bind w.deref).map ConnEnd.sock

section ends

theorem end_at (hh : Held w b c) (hk : Kinds c) (s : Side) :
    endAt w (side c s).sock = some (side c s) := by
  rw [endAt, end_by_fd hh.block (hh.route s) hk, Option.bind_some, deref_ptr hh.block]

theorem partner_at (hh : Held w b c) (s : Side) :
    partnerAt w (side c s).sock = some (side c s.other).sock := by
  rw [partnerAt, hh.route s, Option.bind_some, deref_ptr hh.block, Option.map_some]

/-- Descriptors of other connections are not touched. -/
theorem aside_ends (R : Ready build w) (A : Aside w w' b c) (hh : Held w b c)
    (hx : w.routeMap x ≠ none) (hne : ∀ t, x ≠ (side c t).sock) :
    endAt w' x = endAt w x ∧ partnerAt w' x = partnerAt w x := by
  obtain ⟨b1, c1, s1, hh1, rfl⟩ := R.served hx
  have hb : b1 ≠ b := by
    rintro rfl
    exact hne s1 (by rw [Option.some.inj (hh1.block.symm.trans hh.block)])
  have hh1' : Held w' b1 c1 := by
    refine ⟨(A.blocks hb).trans hh1.block, fun t => ?_⟩
    obtain ⟨hi, hd⟩ := held_apart hh hh1 hb t
    rw [A.routes hi hd (by rw [hh1.route t]; simp)]
    exact hh1.route t
  have hk := R.kinds hh1
  rw [end_at hh1' hk, end_at hh1 hk, partner_at hh1', partner_at hh1]
  exact ⟨rfl, rfl⟩

/-- A call on `fd` left its connection where it was. -/
structure Kept (build : Build) (w w' : World) (fd : Fd) : Prop where
  ready : Ready build w'
  masked : Masked w w'
  ctl : w'.ctlRecv = w.ctlRecv
  routed : ∀ {x}, w'.routeMap x ≠ none ↔ w.routeMap x ≠ none
  partner : partnerAt w' fd = partnerAt w fd
  back : ∀ {x}, partnerAt w fd = some x → partnerAt w x = some fd ∧ partnerAt w' x = some fd
  other : ∀ {x}, w.routeMap x ≠ none → x ≠ fd → partnerAt w fd ≠ some x →
    endAt w' x = endAt w x ∧ partnerAt w' x = partnerAt w x

theorem kept (R : Ready build w) (R' : Ready build w') (hh : Held w b c) (k : Keeps build w w' b c)
    (A : Aside w w' b c) (s : Side) : Kept build w w' (side c s).sock := by
  obtain ⟨c1, hh1, _, hs⟩ := k.held
  have hown : ∀ t, partnerAt w' (side c t).sock = some (side c t.other).sock := by
    intro t
    rw [← hs t, partner_at hh1, hs]
  refine ⟨R', k.masked, A.ctl, keeps_routed_iff R.toTabled k, ?_, fun {x} hx => ?_, fun {x} hx hne hp => ?_⟩
  · rw [hown, partner_at hh]
  · rw [partner_at hh, Option.some.injEq] at hx
    rw [← hx, partner_at hh, hown, other_other]
    exact ⟨rfl, rfl⟩
  · refine aside_ends R A hh hx fun t => ?_
    rcases side_cases s t with rfl | rfl
    · exact hne
    · intro he
      exact hp (by rw [partner_at hh, he])

/-- A read does not change what its own end has to send, nor its kind. -/
theorem read_own_end (hh : Held w b c) (hk : Kinds c) (s : Side)
    (h : poolHandleRead build cnf w (side c s).sock recv send = some (w', ret))
    (k : Keeps build w w' b c) (hh' : Held w' b c') :
    (side c' s).total = (side c s).total ∧ (side c' s).kind = (side c s).kind := by
  obtain ⟨c1, hh1, _, hs⟩ := k.held
  rw [← other_other s] at h
  obtain ⟨u, hf, hb⟩ := read_cases hh hk s.other h
  have hheap : u.heap b = some c' := (congrArg (fun w => w.heap b) hb).symm.trans hh'.block
  have hroute : u.routeMap c.inc.sock ≠ none := by
    have hr := hh1.route .inc
    rw [hs .inc] at hr
    have hu : u.routeMap c.inc.sock = some _ := (congrArg (fun w => w.routeMap c.inc.sock) hb).symm.trans hr
    rw [hu]
    simp
  have same : w.heap b = some c' → (side c' s).total = (side c s).total ∧
      (side c' s).kind = (side c s).kind := by
    intro hw
    rw [Option.some.inj (hw.symm.trans hh.block)]
    exact ⟨rfl, rfl⟩
  cases hf with
  | full _ => exact same hheap
  | nothing _ => exact same hheap
  | closed _ _ => exact absurd (update_self _ _ _) hroute
  | detach _ _ _ => exact absurd (update_self _ _ _) hroute
  | broken bytes _ _ _ _ =>
    have hi : (filled c s.other bytes).inc.sock = c.inc.sock := filled_socks c s.other bytes .inc
    exact absurd (hi ▸ update_self _ _ _) hroute
  | passed avail bytes _ _ _ _ =>
    have hc : c' = stall (sentConn (filled c s.other bytes) s.other send false) s.other :=
      (Option.some.inj ((put_conn_heap _ _ _).symm.trans hheap)).symm
    subst hc
    refine ⟨?_, ?_⟩
    · unfold stall sentConn
      cases s <;> simp only [Bool.false_eq_true, false_and, ↓reduceIte, Side.other] <;> split <;> rfl
    · exact (read_fixed c s.other bytes send s).2.1

end ends

/-- A registered descriptor is the pipe's or leads to a connection. -/
theorem registered_routed (R : Ready build w) (h : fd ∈ w.fdset.pollfds.map PollFd.fd) :
    fd = w.ctlRecv ∨ w.routeMap fd ≠ none := by
  rw [R.slots, List.mem_cons] at h
  exact h.imp id R.mem.mp

section counters
variable {st : Stats}

-- the counter that is raised before a call is not part of any table

theorem keeps_recounted (k : Keeps build { w with stats := st } w' b c) : Keeps build w w' b c :=
  ⟨k.tabled, ⟨k.masked.marks, k.masked.len, k.masked.conns⟩, k.held⟩

theorem cleared_recounted (h : Cleared build cnf { w with stats := st } w' b c) :
    Cleared build cnf w w' b c := by
  obtain ⟨w1, c1, s, notify, w2, k, hh, hr, hm⟩ := h.steps
  exact ⟨h.tabled, w1, c1, s, notify, w2, keeps_recounted k, hh, hr, hm⟩

theorem slots_recounted (h : Slots build cnf { w with stats := st } b c w') : Slots build cnf w b c w' := by
  cases h with
  | kept k => exact .kept (keeps_recounted k)
  | cleared h => exact .cleared (cleared_recounted h)
  | moved h T hg => exact .moved (cleared_recounted h) T hg

theorem Kept.recounted (K : Kept build { w with stats := st } w' fd) : Kept build w w' fd :=
  ⟨K.ready, ⟨K.masked.marks, K.masked.len, K.masked.conns⟩, K.ctl, K.routed, K.partner, K.back, K.other⟩

end counters

section halves

theorem Kept.refl (R : Ready build w) : Kept build w w fd := by
  cases hq : w.routeMap fd with
  | none =>
    have hp : partnerAt w fd = none := by rw [partnerAt, hq]; rfl
    exact ⟨R, .refl w, rfl, Iff.rfl, rfl, fun hx => absurd (hp.symm.trans hx) (by simp), fun _ _ _ => ⟨rfl, rfl⟩⟩
  | some q =>
    obtain ⟨b, c, s, hh, rfl⟩ := R.paired fd q hq
    exact kept R R hh (.refl R.toTabled hh (R.kinds hh)) ⟨fun _ _ _ => rfl, fun _ => rfl, rfl⟩ s

theorem Kept.trans (h : Kept build w w1 fd) (h' : Kept build w1 w2 fd) : Kept build w w2 fd := by
  refine ⟨h'.ready, h.masked.trans h'.masked, h'.ctl.trans h.ctl, h'.routed.trans h.routed,
    h'.partner.trans h.partner, fun hx => ⟨(h.back hx).1, (h'.back (h.partner.trans hx)).2⟩, fun {x} hx hne hp => ?_⟩
  obtain ⟨he, hq⟩ := h.other hx hne hp
  obtain ⟨he', hq'⟩ := h'.other (h.routed.mpr hx) hne (h.partner ▸ hp)
  exact ⟨he'.trans he, hq'.trans hq⟩

/-- The first half of a loop body on a descriptor of a served connection. -/
theorem readable_kept (R : Ready build w) (hr : w.routeMap fd ≠ none)
    (h : handleReadable build cnf w fd revents next env = some t) :
    t.cursor = .returned ∨ (t.cursor = next ∧ Kept build w t.world fd ∧
      (endAt t.world fd).map (fun e => (e.total, e.kind)) = (endAt w fd).map (fun e => (e.total, e.kind))) := by
  unfold handleReadable at h
  split at h
  · simp only [Option.bind_eq_bind, Option.bind_eq_some_iff, Option.some.injEq, Prod.exists] at h
    obtain ⟨w1, ret, h1, rfl⟩ := h
    by_cases hneg : ret < 0
    · exact Or.inl (if_pos hneg)
    · right
      let w0 : World := { w with stats := { w.stats with pollReads := w.stats.pollReads + 1 } }
      have R0 : Ready build w0 := R.frame rfl rfl rfl rfl rfl
      obtain ⟨b, c, s, hh, rfl⟩ := R.served hr
      have hh0 : Held w0 b c := ⟨hh.block, hh.route⟩
      obtain ⟨R1, A, hcase⟩ := read_ready R0 hh0 s h1
      have k := hcase.resolve_right hneg
      have K := kept R0 R1 hh0 k A s
      obtain ⟨c1, hh1, hk1, hs⟩ := k.held
      obtain ⟨htotal, hkind⟩ := read_own_end hh0 (R.kinds hh) s h1 k hh1
      refine ⟨if_neg hneg, K.recounted, ?_⟩
      rw [end_at hh (R.kinds hh), ← hs s, end_at hh1 hk1, Option.map_some, Option.map_some, htotal, hkind]
  · rw [Option.some.injEq] at h
    subst h
    exact Or.inr ⟨rfl, .refl R, rfl⟩

/-- The second half. -/
theorem writable_slots (R : Ready build w) (hr : w.routeMap fd ≠ none)
    (h : handleWritable build cnf w fd revents next env = some t) :
    t.cursor = next ∧ Ready build t.world ∧
      ∃ b c s, Held w b c ∧ fd = (side c s).sock ∧ Aside w t.world b c ∧ Slots build cnf w b c t.world ∧
        (revents &&& poolFdWrite = 0 ∨ ¬ Exposed (side c s) → ∃ stats, t.world = { w with stats := stats }) := by
  obtain ⟨b, c, s, hh, rfl⟩ := R.served hr
  unfold handleWritable at h
  split at h
  · rename_i hbit
    let w0 : World := { w with stats := { w.stats with pollWrites := w.stats.pollWrites + 1 } }
    have R0 : Ready build w0 := R.frame rfl rfl rfl rfl rfl
    have hh0 : Held w0 b c := ⟨hh.block, hh.route⟩
    simp only [Option.bind_eq_bind, Option.bind_eq_some_iff, Option.some.injEq] at h
    obtain ⟨w1, h1, rfl⟩ := h
    obtain ⟨R1, A, hs⟩ := write_ready R0 hh0 s h1
    refine ⟨rfl, R1, b, c, s, hh, rfl, ⟨A.routes, A.blocks, A.ctl⟩, slots_recounted hs, fun hsafe => ?_⟩
    have hidle : ¬ Exposed (side c s) := hsafe.resolve_left hbit
    have hkind : (side c s).kind ≠ .incomplete := fun hi => hidle (Or.inl hi)
    have htotal : (side c s).total = 0 := by
      by_contra h0
      exact hidle (Or.inr h0)
    have hw : w0 = w1 :=
      Option.some.inj ((write_idle cnf hh0 s hkind htotal env.complete env.send).symm.trans h1)
    exact ⟨_, hw.symm⟩
  · rw [Option.some.injEq] at h
    subst h
    exact ⟨rfl, R, b, c, s, hh, rfl, ⟨fun _ _ _ => rfl, fun _ => rfl, rfl⟩,
      .kept (.refl R.toTabled hh (R.kinds hh)), fun _ => ⟨w.stats, rfl⟩⟩

end halves

section outcomes

theorem exposed_congr (h : (endAt w' fd).map (fun e => (e.total, e.kind)) =
    (endAt w fd).map (fun e => (e.total, e.kind))) :
    (endAt w' fd).any (fun e => Exposed e) = (endAt w fd).any (fun e => Exposed e) := by
  have hany : ∀ o : Option ConnEnd, o.any (fun e => Exposed e) =
      (o.map (fun e => (e.total, e.kind))).any (fun p => p.2 = .incomplete ∨ p.1 ≠ 0) := by
    intro o
    cases o with
    | none => rfl
    | some e => rfl
  rw [hany, h, ← hany]

theorem calm_readable (cnf : Cnf) (R : Ready build w) (hr : revents &&& poolFdRead ≠ 0 → w.routeMap fd ≠ none)
    (hn : next ≠ .returned) :
    ∃ w', handleReadable build cnf w fd revents next calmEnv = some ⟨w', next⟩ ∧ Kept build w w' fd ∧
      (endAt w' fd).map (fun e => (e.total, e.kind)) = (endAt w fd).map (fun e => (e.total, e.kind)) := by
  by_cases hbit : revents &&& poolFdRead ≠ 0
  · let w0 : World := { w with stats := { w.stats with pollReads := w.stats.pollReads + 1 } }
    have R0 : Ready build w0 := R.frame rfl rfl rfl rfl rfl
    obtain ⟨b, c, s, hh, rfl⟩ := R.served (hr hbit)
    obtain ⟨w', ret, h, hret⟩ := read_calm cnf R0 ⟨hh.block, hh.route⟩ s
    have hs : handleReadable build cnf w (side c s).sock revents next calmEnv = some ⟨w', next⟩ := by
      rw [handleReadable, if_pos hbit]
      change (poolHandleRead build cnf w0 (side c s).sock calmEnv.recv calmEnv.send).bind _ = _
      rw [h, Option.bind_some]
      simp only [if_neg (Int.not_lt.mpr hret)]
    rcases readable_kept R (hr hbit) hs with hc | ⟨_, K, hown⟩
    · exact absurd hc hn
    · exact ⟨w', hs, K, hown⟩
  · exact ⟨w, by rw [handleReadable, if_neg hbit], .refl R, rfl⟩

theorem calm_writable (cnf : Cnf) (R : Ready build w) (next : Cursor)
    (hr : revents &&& poolFdWrite ≠ 0 → w.routeMap fd ≠ none) :
    ∃ w', handleWritable build cnf w fd revents next calmEnv = some ⟨w', next⟩ ∧ Kept build w w' fd := by
  by_cases hbit : revents &&& poolFdWrite ≠ 0
  · let w0 : World := { w with stats := { w.stats with pollWrites := w.stats.pollWrites + 1 } }
    have R0 : Ready build w0 := R.frame rfl rfl rfl rfl rfl
    obtain ⟨b, c, s, hh, rfl⟩ := R.served (hr hbit)
    have hh0 : Held w0 b c := ⟨hh.block, hh.route⟩
    obtain ⟨w', h, k⟩ := write_calm cnf R0 hh0 s
    obtain ⟨R', A, _⟩ := write_ready R0 hh0 s h
    have K := kept R0 R' hh0 k A s
    refine ⟨w', ?_, K.recounted⟩
    rw [handleWritable, if_pos hbit]
    change (poolHandleWrite build cnf w0 (side c s).sock calmEnv.complete calmEnv.send).bind _ = _
    rw [h, Option.bind_some]
  · exact ⟨w, by rw [handleWritable, if_neg hbit], .refl R⟩

/-- The peer of an end with something to lose is gone. -/
theorem cut_writable (cnf : Cnf) (R : Ready build w) (next : Cursor) (hbit : revents &&& poolFdWrite ≠ 0)
    (hh : Held w b c) (hx : Exposed (side c s)) :
    ∃ w', handleWritable build cnf w (side c s).sock revents next cutEnv = some ⟨w', next⟩ ∧
      Ready build w' ∧ w'.ctlRecv = w.ctlRecv ∧ Cleared build cnf w w' b c := by
  let w0 : World := { w with stats := { w.stats with pollWrites := w.stats.pollWrites + 1 } }
  have R0 : Ready build w0 := R.frame rfl rfl rfl rfl rfl
  have hh0 : Held w0 b c := ⟨hh.block, hh.route⟩
  obtain ⟨w', h, hc⟩ := write_cut cnf R0 hh0 s hx
  obtain ⟨R', A, _⟩ := write_ready R0 hh0 s h
  refine ⟨w', ?_, R', A.ctl, cleared_recounted hc⟩
  rw [handleWritable, if_pos hbit]
  change (poolHandleWrite build cnf w0 (side c s).sock cutEnv.complete cutEnv.send).bind _ = _
  rw [h, Option.bind_some]

end outcomes

end Glb.Proofs.LoopBody
