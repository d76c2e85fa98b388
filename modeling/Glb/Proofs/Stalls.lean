import Glb.Proofs.Counts
import Glb.Proofs.Interest
import Glb.Proofs.Serving
import Glb.Proofs.Stream

namespace Glb.Proofs.Stalls
open Function Lib.Run PoolFrame PoolEvents DaemonSteps Ownership DaemonLedger Registry Blocks Descriptors
open Serving Interest LiveConns Counts RouterRun Glb.Proofs.Stream

/-- What comes from one end does not get stuck in the other. -/
def Unstalled (src dst : ConnEnd) : Prop :=
  (dst.sent < dst.total → Writable dst) ∧
  (src.events &&& poolFdRead = 0 → dst.total = poolBufSize ∧ dst.sent < dst.total)

/-- A `send ()` takes something, may be tried again, or finds the peer gone. -/
def SendOk (out : SendOut) : Prop := 0 < out.ret ∨ sendRetries out.errno = true ∨ out.errno = EPIPE

instance (out : SendOut) : Decidable (SendOk out) := inferInstanceAs (Decidable (_ ∨ _ ∨ _))

/-- Nothing arrives from a server that is not known to be connected. -/
def StallOk (d : Daemon) (op : DaemonOp) : Prop :=
  (∀ r ∈ dataRead op, r.avail ≠ [] → SendOk r.send ∧ ∀ e ∈ ownEnd d r.pool r.fd, e.kind ≠ .incomplete) ∧
    ∀ send ∈ writeSend op, SendOk send

instance (d : Daemon) (op : DaemonOp) : Decidable (StallOk d op) :=
  inferInstanceAs (Decidable ((∀ r ∈ dataRead op, _) ∧ ∀ send ∈ writeSend op, _))

/-- What holds of the two ends of a connection that a pool serves. -/
structure Smooth (c : Conn) : Prop where
  quiet : c.dst.kind = .incomplete → c.inc.total = 0
  writes : c.dst.kind ≠ .incomplete → ∀ s, (side c s).sent < (side c s).total → Writable (side c s)
  reads : ∀ s, (c.dst.kind = .incomplete → s = .dst) → (side c s.other).events &&& poolFdRead = 0 →
    (side c s).total = poolBufSize

variable {build : Build} {cnf : Cnf} {ctrl : Ctrl} {d d' : Daemon} {op : DaemonOp} {c c' : Conn} {s : Side}
  {e : ConnEnd} {out send : SendOut} {bytes avail : List UInt8}

section ends

theorem after_send_total (e : ConnEnd) (out : SendOut) (h : sendLen e out = 0) :
    (afterSend e out).total = e.total := by
  unfold afterSend
  rw [if_neg (by omega)]
  split <;> rfl

theorem after_send_le (e : ConnEnd) (out : SendOut) : (afterSend e out).total ≤ e.total := by
  unfold afterSend ConnEnd.advance
  split
  · split
    · exact Nat.zero_le _
    · exact Nat.le_refl _
  · split <;> exact Nat.le_refl _

/-- What is left after a `send ()` is waited for. -/
theorem after_send_waits (hok : SendOk out) (hs : Spares e out) (hk : e.kind ≠ .incomplete)
    (h0 : e.sent < e.total) (hl : (afterSend e out).sent < (afterSend e out).total) :
    Writable (afterSend e out) := by
  unfold afterSend ConnEnd.advance at hl ⊢
  split at hl
  · rename_i hn
    rw [if_pos hn]
    split at hl
    · exact absurd hl (Nat.lt_irrefl 0)
    · rename_i hne
      rw [if_neg hne]
      exact or_write e.events
  · rename_i hn
    rw [if_neg hn]
    have hzero : sendLen e out = 0 := Nat.eq_zero_of_not_pos hn
    have hret : out.ret = 0 := by
      simp only [sendLen] at hzero
      omega
    rcases hok with hpos | hretry | hpipe
    · omega
    · rw [if_pos hretry]
      exact or_write e.events
    · exact absurd (hs hzero hpipe) hk

/-- The rules for both directions of a connection whose server end is complete. -/
theorem Smooth.of_sides (s : Side) (hk : c.dst.kind ≠ .incomplete)
    (hw : (side c s).sent < (side c s).total → Writable (side c s))
    (hw' : (side c s.other).sent < (side c s.other).total → Writable (side c s.other))
    (hr : (side c s.other).events &&& poolFdRead = 0 → (side c s).total = poolBufSize)
    (hr' : (side c s).events &&& poolFdRead = 0 → (side c s.other).total = poolBufSize) : Smooth c := by
  refine ⟨fun hi => absurd hi hk, fun _ t => ?_, fun t _ => ?_⟩
  · cases s <;> cases t <;> first | exact hw | exact hw'
  · cases s <;> cases t <;> first | exact hr | exact hr'

/-- Reading is turned off only for lack of room. -/
theorem stall_reads (c : Conn) (s : Side) (h : (side (stall c s) s.other).events &&& poolFdRead = 0) :
    (side c s).total = poolBufSize ∨ (side c s.other).events &&& poolFdRead = 0 := by
  unfold stall at h
  split at h
  · rename_i ht
    exact Or.inl ht
  · exact Or.inr h

theorem stall_writable (c : Conn) (s : Side) (h : Writable (side c s.other)) :
    Writable (side (stall c s) s.other) := by
  unfold stall
  split
  · rw [side_set]
    exact and_not_read_write h
  · exact h

end ends

section touched

/-- Data arrives for side `s`. -/
theorem smooth_read (hs : Smooth c) (hk : Kinds c) (hle : (side c s).sent ≤ (side c s).total)
    (hinc : s = .inc → c.dst.kind ≠ .incomplete) (hok : SendOk send)
    (hb : received (side c s) avail = bytes) (h0 : 0 < bytes.length)
    (hsp : Spares (side (filled c s bytes) s) send) :
    Smooth (stall (sentConn (filled c s bytes) s send false) s) := by
  have hroom : (side c s).total < poolBufSize := by
    rw [← hb, received, List.length_take] at h0
    omega
  have hfill : side (filled c s bytes) s = fill (side c s) bytes := side_set c s _
  have hothr : side (sentConn (filled c s bytes) s send false) s.other = side c s.other := by
    simp [sentConn, filled]
  have hend := read_end c s bytes send
  have hkind : (stall (sentConn (filled c s bytes) s send false) s).dst.kind = c.dst.kind :=
    (read_fixed c s bytes send .dst).2.1
  have hsame : SameBytes (side c s.other) (side (stall (sentConn (filled c s bytes) s send false) s) s.other) := by
    have h := same_stall (sentConn (filled c s bytes) s send false) s s.other
    rwa [hothr] at h
  -- the direction that the data takes
  have hreads : (c.dst.kind = .incomplete → s = .dst) →
      (side (stall (sentConn (filled c s bytes) s send false) s) s.other).events &&& poolFdRead = 0 →
      (side (stall (sentConn (filled c s bytes) s send false) s) s).total = poolBufSize := by
    intro hguard hoff
    rcases stall_reads _ s hoff with ht | hoff
    · rw [stall_end]
      exact ht
    · rw [hothr] at hoff
      exact absurd (hs.reads s hguard hoff) (Nat.ne_of_lt hroom)
  by_cases hi : c.dst.kind = .incomplete
  · have hd : s = .dst := by
      cases s with
      | inc => exact absurd hi (hinc rfl)
      | dst => rfl
    subst hd
    refine ⟨fun _ => hsame.2.1.trans (hs.quiet hi), fun hne => absurd (hkind.trans hi) hne, fun t ht => ?_⟩
    obtain rfl := ht (hkind.trans hi)
    exact hreads (fun _ => rfl)
  · refine .of_sides s (fun h => hi (hkind.symm.trans h)) ?_ ?_ (hreads fun h => absurd h hi) ?_
    · rw [hend]
      have hks : (fill (side c s) bytes).kind ≠ .incomplete := by
        cases s with
        | inc =>
          have hc : c.inc.kind = .client := hk.1
          simp [fill, side, hc]
        | dst => exact hi
      have hlt : (fill (side c s) bytes).sent < (fill (side c s) bytes).total := by
        simp only [fill]
        omega
      exact after_send_waits hok (hfill ▸ hsp) hks hlt
    · intro hlt
      rw [hsame.1, hsame.2.1] at hlt
      refine stall_writable _ s ?_
      rw [hothr]
      exact hs.writes hi s.other hlt
    · rw [hend, after_send_read, hsame.2.1]
      have hr := hs.reads s.other (fun h => absurd h hi)
      rw [other_other] at hr
      exact hr

/-- A server end that is connected just now may have bytes left that nobody waits to
send; everything else is as it should be. -/
theorem settled_sides (hs : Smooth c) (hk : Kinds c) (hinc : s = .inc → c.dst.kind ≠ .incomplete) :
    (settled c s).dst.kind ≠ .incomplete ∧
    ((side (settled c s) s.other).sent < (side (settled c s) s.other).total →
      Writable (side (settled c s) s.other)) ∧
    ((side (settled c s) s.other).events &&& poolFdRead = 0 → (side (settled c s) s).total = poolBufSize) ∧
    ((side (settled c s) s).events &&& poolFdRead = 0 → (side (settled c s) s.other).total = poolBufSize) := by
  unfold settled
  split
  · rename_i hi
    obtain ⟨rfl, hid⟩ := kind_incomplete hk hi
    refine ⟨by simp [completed], fun hlt => ?_, hs.reads .dst fun _ => rfl, fun hoff => ?_⟩
    · have hq : (side (completed c) Side.dst.other).total = 0 := hs.quiet hid
      exact absurd (hq ▸ hlt) (Nat.not_lt_zero _)
    · exact absurd hoff (by simp only [completed, side]; decide)
  · rename_i hi
    have hid : c.dst.kind ≠ .incomplete := by
      cases s with
      | inc => exact hinc rfl
      | dst => exact hi
    have hr := hs.reads s.other fun h => absurd h hid
    rw [other_other] at hr
    exact ⟨hid, hs.writes hid s.other, hs.reads s fun h => absurd h hid, hr⟩

theorem smooth_settled (hs : Smooth c) (hk : Kinds c) (h0 : (side (settled c s) s).total = 0) :
    Smooth (settled c s) := by
  by_cases hinc : s = .inc → c.dst.kind ≠ .incomplete
  · obtain ⟨hid, hw, hr, hr'⟩ := settled_sides hs hk hinc
    exact .of_sides s hid (fun hlt => absurd (h0 ▸ hlt) (Nat.not_lt_zero _)) hw hr hr'
  · obtain ⟨rfl, _⟩ := Classical.not_imp.mp hinc
    rw [settled_inc hk]
    exact hs

/-- Once there is room again, reading goes on. -/
theorem sent_reads (c : Conn) (s : Side) (out : SendOut) (hroom : (side c s).total ≤ poolBufSize)
    (hr : (side c s.other).events &&& poolFdRead = 0 → (side c s).total = poolBufSize)
    (hoff : (side (sentConn c s out true) s.other).events &&& poolFdRead = 0) :
    (afterSend (side c s) out).total = poolBufSize := by
  unfold sentConn at hoff
  split at hoff
  · rw [side_set, wake] at hoff
    have hle := after_send_le (side c s) out
    split at hoff
    · rename_i hw
      rw [BitVec.and_or_distrib_right, hw.1] at hoff
      exact absurd hoff (by decide)
    · rename_i hw
      have hfull : ¬ (afterSend (side c s) out).total < poolBufSize := fun h => hw ⟨hoff, h⟩
      omega
  · rename_i hn
    rw [side_set_other] at hoff
    rw [after_send_total _ _ (by simpa using hn)]
    exact hr hoff

theorem sent_writable (c : Conn) (s : Side) (out : SendOut) (h : Writable (side c s.other)) :
    Writable (side (sentConn c s out true) s.other) := by
  unfold sentConn
  split
  · rw [side_set]
    exact wake_writable _ _ h
  · rw [side_set_other]
    exact h

/-- The end of side `s` sends, connected just now or before. -/
theorem smooth_written (hs : Smooth c) (hk : Kinds c) (hle : (side c s).sent < (side c s).total ∨
      ((side c s).sent = 0 ∧ (side c s).total = 0)) (hroom : (side c s).total ≤ poolBufSize) (hok : SendOk send)
    (h0 : (side (settled c s) s).total ≠ 0) (hsp : Spares (side (settled c s) s) send) :
    Smooth (sentConn (settled c s) s send true) := by
  have hset : SameBytes (side c s) (side (settled c s) s) := same_bytes_settled c s s
  have hinc : s = .inc → c.dst.kind ≠ .incomplete := by
    rintro rfl hi
    exact h0 (hset.2.1.trans (hs.quiet hi))
  obtain ⟨hid, hw, hr, hr'⟩ := settled_sides hs hk hinc
  have hks : (side (settled c s) s).kind ≠ .incomplete := by
    cases s with
    | inc =>
      have hc : (settled c .inc).inc.kind = .client := (settled_kinds hk .inc).1
      simp [side, hc]
    | dst => exact hid
  have hlt : (side (settled c s) s).sent < (side (settled c s) s).total := by
    rw [hset.2.1] at h0
    rw [hset.1, hset.2.1]
    omega
  have hend := sent_conn_end (settled c s) s send true
  have hoth := sent_conn_other (settled c s) s send true
  have hkind := (sent_conn_fixed (settled c s) s send true .dst).2.1
  refine .of_sides s (fun h => hid (hkind.symm.trans h)) ?_ ?_ ?_ ?_
  · rw [hend]
    exact after_send_waits hok hsp hks hlt
  · intro hl
    rw [hoth.1, hoth.2.1] at hl
    exact sent_writable _ s send (hw hl)
  · rw [hend]
    exact sent_reads _ s send (hset.2.1 ▸ hroom) hr
  · rw [hend, after_send_read, hoth.2.1]
    exact hr'

/-- A connection is registered, for the first time or after its server has refused. -/
theorem smooth_registered (hq : c.inc.total = 0) (hk : c.inc.kind = .client)
    (hd : c.dst.kind = .incomplete ∨ c.dst.total = 0) : Smooth (registeredConn c) := by
  have hread : ∀ e : ConnEnd, e.kind ≠ .incomplete → (registered e).events &&& poolFdRead ≠ 0 := by
    intro e he
    simp only [registered, regEvents, he, ↓reduceIte]
    decide
  refine ⟨fun _ => hq, fun hne s hlt => ?_, fun s hs hoff => ?_⟩
  · have hzero : (side (registeredConn c) s).total = 0 := by
      cases s with
      | inc => exact hq
      | dst => exact hd.resolve_left hne
    exact absurd (hzero ▸ hlt) (Nat.not_lt_zero _)
  · cases s with
    | inc =>
      have hne : c.dst.kind ≠ .incomplete := fun hi => by cases hs hi
      exact absurd hoff (hread c.dst hne)
    | dst => exact absurd hoff (hread c.inc (by simp [hk]))

end touched

section daemon

/-- Nothing has been read yet for a connection that waits in a pipe. -/
def Idle (v : View) : Prop :=
  ∀ {i b c}, b ∈ v.queue i → v.heap b = some c → c.inc.total = 0 ∧ c.dst.total = 0

theorem idle_allocated (hi : Idle (view d)) {j : Nat} (hq : b ∈ (view d).queue j ∨ b = d.nextBlock)
    (hc : (allocated d (newConn inc addr sock dst complete)).heap b = some c) :
    c.inc.total = 0 ∧ c.dst.total = 0 := by
  rcases update_eq_some hc with ⟨_, hx⟩ | ⟨hne, hc⟩
  · cases hx
    exact ⟨rfl, rfl⟩
  · exact hi (hq.resolve_right hne) hc

theorem idle_added (hi : Idle (view d)) (h : AddFate cnf d inc addr sock dst complete d') : Idle (view d') := by
  cases h with
  | noMemory => exact hi
  | unsent =>
    intro j b c hb hc
    exact idle_allocated hi (Or.inl hb) hc
  | queued =>
    rcases Nat.lt_or_ge (poolGetPool d.pools) d.pools.length with hlt | hge
    · rw [view_enqueued (d := allocated d (newConn inc addr sock dst complete)) hlt]
      intro j b c hb hc
      have hb : b ∈ update (view d).queue (poolGetPool d.pools)
          ((view d).queue (poolGetPool d.pools) ++ [d.nextBlock]) j := hb
      refine idle_allocated hi (j := j) ?_ hc
      by_cases hj : j = poolGetPool d.pools
      · subst hj
        rw [update_self] at hb
        exact (List.mem_append.mp hb).imp_right List.mem_singleton.mp
      · rw [update_of_ne hj] at hb
        exact Or.inl hb
    · rw [view_not_enqueued (d := allocated d (newConn inc addr sock dst complete)) hge]
      intro j b c hb hc
      exact idle_allocated hi (Or.inl hb) hc

/-- A pool leaves the connections alone that still wait, in its own pipe or another. -/
theorem idle_pool (L : Ledger (view d) claim home) (hi : Idle (view d))
    (hs : PoolStep cnf d op d' i p u w') : Idle (view d') := by
  obtain ⟨hp, hrun, hf, hb, rfl⟩ := hs
  have hheap : w'.heap = u.heap := congrArg (fun w => w.heap) hb
  have hpipe : w'.pipe = u.pipe := congrArg (fun w => w.pipe) hb
  have L' := pool_ledger L hp
  have hq : (view d).queue i = adds p.pipe := by simp [view, hp]
  obtain ⟨pre, hpre⟩ := fate_pipe hf
  have hadds : (view d).queue i = adds pre ++ adds u.pipe := by
    have hw : p.pipe = pre ++ u.pipe := hpre
    rw [hq, hw]
    exact List.filterMap_append
  rw [view_put (List.getElem?_eq_some_iff.mp hp).1]
  intro j b c hb hc
  have hold : b ∈ (view d).queue j ∧ ∀ q, p.pipe = .addConn b :: q → u.pipe ≠ q := by
    by_cases hj : j = i
    · subst hj
      have hin : b ∈ adds u.pipe := by simpa [seen, hpipe] using hb
      refine ⟨hadds ▸ List.mem_append_right _ hin, ?_⟩
      rintro q hpop rfl
      have hnodup := L.nodup j
      rw [hq, hpop] at hnodup
      exact (List.nodup_cons.mp hnodup).1 hin
    · have hin : b ∈ (view d).queue j := by simpa [seen, hj] using hb
      refine ⟨hin, fun q => adds_popped (fun hmem => hj ?_) q u.pipe⟩
      have hhome := (L.queued.mp hin).symm.trans (L.queued.mp (hq ▸ hmem))
      simpa using hhome
  have hled : ∀ {fd q}, (d.world p).routeMap fd = some q → q.block ≠ b := by
    intro fd q hr he
    obtain ⟨b', c', s, _, hh, _, rfl⟩ := served L' hr
    have hptr : q = ptr b' s.other := Option.some.inj (hr.symm.trans (hh.route s))
    have hbb : b' = b := by rw [← he, hptr, ptr_block]
    have hhome := (held_home L' hh).symm.trans (hbb ▸ L.queued.mp hold.1)
    cases hhome
  have hsame : u.heap b = d.heap b := fate_other hf hled hold.2
  have hc' : w'.heap b = some c := hc
  rw [hheap, hsame] at hc'
  exact hi hold.1 hc'

theorem idle_step (L : Ledger (view d) claim home) (hi : Idle (view d)) (hs : Step cnf ctrl d op d') :
    Idle (view d') := by
  cases hs with
  | accept _ _ _ h => cases h <;> exact hi
  | connected _ h => cases h <;> exact hi
  | addConn _ h => exact idle_added hi h
  | pool h => exact idle_pool L hi h
  | request h =>
    obtain ⟨hs, hh, ho, _, hl, hn⟩ := request_frame h
    rw [view_signalled hs hh ho hl hn]
    exact hi
  | drop dst =>
    rw [view_signalled (bcast_signalled (d := d) (.dropDst dst) (by simp)) rfl rfl rfl rfl]
    exact hi
  | destroy =>
    rw [view_signalled (bcast_signalled (d := d) .shutdown (by simp)) rfl rfl rfl rfl]
    exact hi

/-- What holds of the daemon whose connections do not stall. -/
structure Moving (d : Daemon) : Prop where
  flowing : Flowing d
  idle : Idle (view d)
  smooth : ∀ b c, Serves d b c → Smooth c

/-- A connection that a pool serves stays smooth through what its own events do. -/
theorem smooth_touched (hs : Smooth c) (hp : d.pools[i]? = some p) (hh : Held (d.world p) b c) (hk : Kinds c)
    (hf : ∀ s, Flow d.log (ptr b s) (side c s)) (hok : StallOk d op) (hop : ∀ env, op ≠ .ctl i env)
    (ht : Touched (d.world p) i b op c c') : Smooth c' := by
  cases ht with
  | @read _ s avail bytes send _ _ hb h0 hsp =>
    have hne : avail ≠ [] := by
      rintro rfl
      rw [← hb] at h0
      simp [received] at h0
    obtain ⟨hsend, hend⟩ := hok.1 _ rfl hne
    refine smooth_read hs hk (hf s).sent_le ?_ hsend hb h0 hsp
    rintro rfl
    exact hend c.dst (held_own_end hp hh hk .dst)
  | settled _ h0 => exact smooth_settled hs hk h0
  | @written _ s _ _ _ h0 hsp => exact smooth_written hs hk (hf s).order (hf s).room (hok.2 _ rfl) h0 hsp
  | moved addr fd _ hi => exact smooth_registered (hs.quiet hi) hk.1 (Or.inl hi)
  | added _ => exact absurd rfl (hop _)

/-- A connection comes from the pipe with nothing in its buffers. -/
theorem smooth_added (hq : c.inc.total = 0 ∧ c.dst.total = 0) (hk : Kinds c) (hop : ∃ env, op = .ctl i env)
    (ht : Touched w i b op c c') : Smooth c' := by
  obtain ⟨env, rfl⟩ := hop
  cases ht with
  | added hs =>
    rcases hs with ⟨_, _, rfl⟩ | ⟨_, fd, _, _, _, rfl⟩
    · exact smooth_registered hq.1 hk.1 (Or.inr hq.2)
    · exact smooth_registered hq.1 hk.1 (Or.inr hq.2)

/-- One step of the daemon stalls no connection. -/
theorem moving_step (hm : Moving d) (hok : StallOk d op) (h : daemonStep build cnf ctrl d op = some d') :
    Moving d' := by
  obtain ⟨⟨claim, home, L⟩, hstreams⟩ := hm.flowing
  have hs := step_cases L h
  refine ⟨flowing_step hm.flowing h, idle_step L hm.idle hs, ?_⟩
  rintro b c ⟨j, p', hp', hh'⟩
  obtain ⟨p, hp, hshift⟩ := step_shift L hs hp'
  have L' := pool_ledger L hp
  have hold : ∀ {b c}, Held (d.world p) b c → Smooth c := fun hh => hm.smooth _ _ ⟨j, p, hp, hh⟩
  cases hshift with
  | same hiff => exact hold (hiff.mp hh')
  | touched h0 ht hop hiff =>
    rcases hiff.mp hh' with ⟨rfl, rfl⟩ | ⟨_, hh⟩
    · have hk : Kinds _ := (L'.unique (held_home L' h0) h0.block).1
      exact smooth_touched (hold h0) hp h0 hk (hstreams.ends h0.block) hok hop ht
    · exact hold hh
  | @added b0 c0 c1 q hpipe hc ht hop hiff =>
    rcases hiff.mp hh' with ⟨rfl, rfl⟩ | hh
    · have hmem : b ∈ (view d).queue j := by
        have hpp : p.pipe = .addConn b :: q := hpipe
        simp [view, hp, hpp, adds]
      exact smooth_added (hm.idle hmem hc) (L.unique (L.queued.mp hmem) hc).1 hop ht
    · exact hold hh
  | removed hto _ => exact hold (hto hh')

theorem moving_init (hn : pipes.Nodup) (hu : ∀ fd ∈ pipes, 0 < fd ∧ used fd = true) (router : Router) :
    Moving (Daemon.init pipes used router) := by
  refine ⟨⟨registered_init hn hu router, by simp [Daemon.init], by simp [Daemon.init], by simp [Daemon.init]⟩, ?_, ?_⟩
  · intro i b c _ hc
    cases hc
  · rintro b c ⟨i, p, _, hh⟩
    cases hh.block

end daemon

/-- In every run in which nothing is received from a server before the connect to it
is known to be complete, and every `send ()` takes something, may be tried again or
finds the peer gone, no direction of a connected connection stalls. -/
theorem no_direction_stalls (hn : pipes.Nodup) (hu : ∀ fd ∈ pipes, 0 < fd ∧ used fd = true)
    (hrun : exec (daemonStep build cnf ctrl) (Daemon.init pipes used router) ops = some d)
    (hok : Along (daemonStep build cnf ctrl) StallOk (Daemon.init pipes used router) ops)
    (hs : Serves d b c) (hc : c.dst.kind = .complete) (s : Side) :
    Unstalled (side c s.other) (side c s) := by
  have hm : Moving d := exec_keeps (fun _ _ _ => moving_step) (moving_init hn hu router) hok hrun
  have hne : c.dst.kind ≠ .incomplete := by simp [hc]
  have hsmooth := hm.smooth b c hs
  obtain ⟨i, p, _, hh⟩ := hs
  refine ⟨hsmooth.writes hne s, fun hoff => ?_⟩
  have hfull := hsmooth.reads s (fun h => absurd h hne) hoff
  refine ⟨hfull, ?_⟩
  rcases (hm.flowing.2.ends hh.block s).order with hlt | ⟨_, hzero⟩
  · exact hlt
  · exact absurd (hfull.symm.trans hzero) (by decide)

/-- The connection in block `b` if pool `i` serves it. -/
def servedBy (d : Daemon) (i b : Nat) : Option Conn :=
  d.pools[i]?.bind fun p => (d.heap b).filter fun c =>
    p.routeMap c.inc.sock = some (ptr b .dst) ∧ p.routeMap c.dst.sock = some (ptr b .inc)

theorem served_by (h : servedBy d i b = some c) : Serves d b c := by
  obtain ⟨p, hp, hf⟩ := Option.bind_eq_some_iff.mp h
  obtain ⟨hc, hr⟩ := Option.filter_eq_some_iff.mp hf
  obtain ⟨hi, hd⟩ := of_decide_eq_true hr
  refine ⟨i, p, hp, hc, fun s => ?_⟩
  cases s with
  | inc => exact hi
  | dst => exact hd

/-- The first client's three bytes wait for A. -/
theorem no_direction_stalls_backlog :
    ∃ c, Serves (reachedBy leastConns backlog) 0 c ∧ c.dst.kind = .complete ∧ c.dst.sent < c.dst.total ∧
      Unstalled c.inc c.dst := by
  have hmap : (servedBy (reachedBy leastConns backlog) 0 0).map (fun c => (c.dst.kind, c.dst.sent, c.dst.total)) =
      some (.complete, 0, 3) := by decide +kernel
  obtain ⟨c, hc, heq⟩ := Option.map_eq_some_iff.mp hmap
  simp only [Prod.mk.injEq] at heq
  obtain ⟨hk, h0, h3⟩ := heq
  have hs := served_by hc
  refine ⟨c, hs, hk, by omega, ?_⟩
  exact no_direction_stalls (by simp) (by decide) (reached_by leastConns backlog (by decide +kernel))
    (by decide +kernel) hs hk .dst

/-- One batch of events after another. -/
def batchStep (d : Daemon) (batch : List EpollEvent × List EventEnv) : Option Daemon :=
  afterBatch d batch.1 batch.2

def BatchOk (d : Daemon) (batch : List EpollEvent × List EventEnv) : Prop :=
  Expected d batch.1 ∧ ∀ env ∈ batch.2, SendOk env.send

instance (d : Daemon) (batch : List EpollEvent × List EventEnv) : Decidable (BatchOk d batch) :=
  inferInstanceAs (Decidable (_ ∧ _))

def lateEnv (soError : Int) : EventEnv :=
  ⟨.data [], ⟨0, EAGAIN⟩, ⟨soError, 200, chooseAt 200, .socket 6 EINPROGRESS, 200⟩,
    ⟨.noSocket 24, 200, fun _ => serverB⟩⟩

/-- B sends a byte on the socket with the stale event, then resets the connection. The
next connect succeeds. -/
def staleBatches : List (List EpollEvent × List EventEnv) :=
  [(staleBatch, List.replicate 4 (staleEnv (.data []) EPIPE) ++ [staleEnv (.data [42]) EAGAIN]),
    ([⟨6, poolFdWrite⟩], [lateEnv 104, lateEnv 104]), ([⟨6, poolFdWrite⟩], [lateEnv 0, lateEnv 0])]

/-- B's byte is in the client's buffer, and the pool, which has registered the client
anew, does not wait until it can be sent. -/
theorem direction_stalls_stale_event :
    exec (daemonStep .epoll leastConns noWdog) oneDaemon backlog = some (reachedBy leastConns backlog) ∧
    Along (daemonStep .epoll leastConns noWdog) StallOk oneDaemon backlog ∧
    Along batchStep BatchOk (reachedBy leastConns backlog) staleBatches ∧
    ∃ d c, exec batchStep (reachedBy leastConns backlog) staleBatches = some d ∧ Serves d 1 c ∧
      c.dst.kind = .complete ∧ ¬ Unstalled c.dst c.inc := by
  refine ⟨reached_by leastConns backlog (by decide +kernel), by decide +kernel, by decide +kernel, ?_⟩
  have hmap : ((exec batchStep (reachedBy leastConns backlog) staleBatches).bind (servedBy · 0 1)).map
      (fun c => (c.dst.kind, c.inc.sent, c.inc.total, c.inc.events)) =
        some (.complete, 0, 1, poolFdRead) := by decide +kernel
  obtain ⟨c, hbind, heq⟩ := Option.map_eq_some_iff.mp hmap
  obtain ⟨d, hd, hc⟩ := Option.bind_eq_some_iff.mp hbind
  simp only [Prod.mk.injEq] at heq
  obtain ⟨hk, h0, h1, hev⟩ := heq
  refine ⟨d, c, hd, served_by hc, hk, fun hun => ?_⟩
  have hwait : Writable c.inc := hun.1 (by omega)
  rw [Writable, hev] at hwait
  exact absurd hwait (by decide)

end Glb.Proofs.Stalls
