import Glb.Proofs.Blocks
import Glb.Proofs.RouterCount

namespace Glb.Proofs.LiveConns
open Function Lib.Run Lib.Tally PoolFrame PoolEvents DaemonSteps Ownership DaemonLedger Registry Blocks
open RouterRun RouterCount

variable {build : Build} {cnf : Cnf} {ctrl : Ctrl} {d d' : Daemon} {w u : World} {op : DaemonOp}
variable {claim : Owner → Option Fd} {home home' : Nat → Option Home} {heap : Nat → Option Conn}
variable {i b : Nat} {c c' : Conn} {r r' : Router}

/-- The block waits in a pipe, or a pool serves its connection. -/
def carried (d : Daemon) (b : Nat) (c : Conn) : Bool :=
  d.pools.any fun p => (adds p.pipe).contains b || p.routeMap c.inc.sock = some (dstPtr b)

/-- The server of the connection in a block that a pool has or will get. -/
def destOf (d : Daemon) (b : Nat) : Option SockAddr :=
  (d.heap b).bind fun c => if carried d b c then some c.dst.addr else none

/-- The server of the connection that is in the listener's hands. -/
def listenerDst (d : Daemon) : Option SockAddr :=
  match d.listener with
  | .idle => none
  | .connecting _ _ _ _ i => d.router.addrAt (some i)
  | .chosen _ _ _ dst _ => some dst

/-- The connections to a server in all pools and between the listener and a pool. -/
def liveConns (d : Daemon) (a : SockAddr) : Int :=
  tally (destOf d) d.nextBlock a + mark (listenerDst d) a

/-- The end that a descriptor belongs to. -/
def ownEnd (d : Daemon) (i : Nat) (fd : Fd) : Option ConnEnd := do
  let p ← d.pools[i]?
  let q ← poolConnEndByFd (d.world p) fd
  (d.world p).deref q

/-- Descriptors are read when the pool has asked for that, and no server is
removed or dropped. -/
structure CountOk (d : Daemon) (op : DaemonOp) : Prop where
  asked : ∀ r ∈ readFd op, ∀ e ∈ ownEnd d r.1 r.2, e.events &&& poolFdRead ≠ 0
  keeps : ∀ dst ∈ changedDst op, 0 ≤ dst.weight
  serves : closing op = false

instance : Decidable (CountOk d op) :=
  decidable_of_iff ((∀ r ∈ readFd op, _) ∧ (∀ dst ∈ changedDst op, _) ∧ closing op = false)
    ⟨fun h => ⟨h.1, h.2.1, h.2.2⟩, fun h => ⟨h.asked, h.keeps, h.serves⟩⟩

section quiet

theorem held_own_end (hp : d.pools[i]? = some p) (hh : Held (d.world p) b c) (hk : Kinds c)
    (s : Side) : ownEnd d i (side c s).sock = some (side c s) := by
  simp [ownEnd, hp, end_by_fd hh.block (hh.route s) hk, deref_ptr hh.block]

/-- Nothing is read from a server that is not connected, and nothing was. -/
def Quiet (c : Conn) : Prop :=
  c.dst.kind = .incomplete → c.dst.events &&& poolFdRead = 0 ∧ c.inc.total = 0

theorem or_write_read (x : BitVec 32) : (x ||| poolFdWrite) &&& poolFdRead = x &&& poolFdRead := by
  have hr : poolFdWrite &&& poolFdRead = 0#32 := by decide
  rw [BitVec.and_or_distrib_right, hr, BitVec.or_zero]

theorem and_not_write_read (x : BitVec 32) :
    (x &&& ~~~poolFdWrite) &&& poolFdRead = x &&& poolFdRead := by
  have hr : ~~~poolFdWrite &&& poolFdRead = poolFdRead := by decide
  rw [BitVec.and_assoc, hr]

theorem after_send_read (e : ConnEnd) (out : SendOut) :
    (afterSend e out).events &&& poolFdRead = e.events &&& poolFdRead := by
  unfold afterSend ConnEnd.advance
  repeat' split
  · exact and_not_write_read e.events
  · exact or_write_read e.events
  · exact or_write_read e.events
  · rfl

theorem read_other_total (c : Conn) (s : Side) (bytes : List UInt8) (send : SendOut) :
    (side (stall (sentConn (filled c s bytes) s send false) s) s.other).total = (side c s.other).total := by
  unfold stall
  split <;> simp [sentConn, filled]

theorem quiet_read (hp : d.pools[i]? = some p) (hh : Held (d.world p) b c) (hk : Kinds c)
    (hq : Quiet c) (hok : CountOk d (.read i (side c s.other).sock (.data avail) send)) :
    Quiet (stall (sentConn (filled c s bytes) s send false) s) := by
  intro hi
  have hkind : c.dst.kind = .incomplete := (read_fixed c s bytes send .dst).2.1.symm.trans hi
  obtain ⟨hread, htotal⟩ := hq hkind
  cases s with
  | inc => exact absurd hread (hok.asked _ rfl c.dst (held_own_end hp hh hk .dst))
  | dst =>
    have hend : (stall (sentConn (filled c .dst bytes) .dst send false) .dst).dst =
        afterSend (fill c.dst bytes) send := read_end c .dst bytes send
    refine ⟨?_, (read_other_total c .dst bytes send).trans htotal⟩
    rw [hend, after_send_read]
    exact hread

theorem quiet_touched (hp : d.pools[i]? = some p) (hq : Quiet c) (hok : CountOk d op)
    (ht : Touched (d.world p) i b op c c') : Quiet c' := by
  have hreg : ∀ {e : ConnEnd}, e.kind = .incomplete → (registered e).events &&& poolFdRead = 0 := by
    intro e he
    simp only [registered, regEvents, he, ↓reduceIte]
    decide
  cases ht with
  | read hh hk hb h0 => exact quiet_read hp hh hk hq hok
  | @settled _ s env send hk =>
    unfold settled
    split
    · intro hi
      cases hi
    · exact hq
  | @written _ s env send hk h0 =>
    intro hi
    have hkind := (sent_conn_fixed (settled c s) s send true .dst).2.1.symm.trans hi
    cases s with
    | inc =>
      rw [settled_inc hk] at hkind h0
      exact absurd (hq hkind).2 h0
    | dst => exact absurd hkind (settled_complete c)
  | moved addr fd hpos hi => exact fun _ => ⟨hreg hi, (hq hi).2⟩
  | added hs =>
    intro hi
    refine ⟨hreg hi, ?_⟩
    rcases hs with ⟨_, _, rfl⟩ | ⟨_, fd, _, _, _, rfl⟩
    · exact (hq hi).2
    · exact (hq hi).2

end quiet

section dests

/-- The servers of the blocks that have a place. -/
def dests (heap : Nat → Option Conn) (home : Nat → Option Home) (b : Nat) : Option SockAddr :=
  (heap b).bind fun c => match home b with
    | some (.held _) => some c.dst.addr
    | some (.queued _) => some c.dst.addr
    | _ => none

theorem pool_of_route (hr : (view d).routes i fd = some q) :
    ∃ p, d.pools[i]? = some p ∧ p.routeMap fd = some q :=
  Option.bind_eq_some_iff.mp hr

theorem pool_of_queue (hq : b ∈ (view d).queue i) : ∃ p, d.pools[i]? = some p ∧ b ∈ adds p.pipe := by
  cases hp : d.pools[i]? with
  | none => simp [view, hp] at hq
  | some p => exact ⟨p, rfl, by simpa [view, hp] using hq⟩

/-- What the tables and pipes say about a block is what the ledger says. -/
theorem carried_iff (L : Ledger (view d) claim home) (hc : d.heap b = some c) :
    carried d b c = true ↔ ∃ i, home b = some (.held i) ∨ home b = some (.queued i) := by
  unfold carried
  rw [List.any_eq_true]
  constructor
  · intro h
    obtain ⟨p, hm, hp⟩ := h
    obtain ⟨i, hi⟩ := List.mem_iff_getElem?.mp hm
    simp only [Bool.or_eq_true, List.contains_iff_mem, decide_eq_true_eq] at hp
    rcases hp with hq | hr
    · have hq' : b ∈ (view d).queue i := by simpa [view, hi] using hq
      exact ⟨i, Or.inr (L.queued.mp hq')⟩
    · have hr' : (view d).routes i c.inc.sock = some (dstPtr b) := by simpa [view, hi] using hr
      obtain ⟨b', c0, s, hb, h0, hfd⟩ := L.routed hr'
      have hroute := (L.held hb h0).2 s
      rw [← hfd, hr', Option.some.injEq] at hroute
      have hbb : b = b' := by
        have := congrArg EndPtr.block hroute
        simpa [dstPtr] using this
      exact ⟨i, Or.inl (hbb ▸ hb)⟩
  · intro h
    obtain ⟨i, hb | hb⟩ := h
    · have hroute := (L.held hb hc).2 .inc
      obtain ⟨p, hp, hr⟩ := pool_of_route hroute
      have hr' : p.routeMap c.inc.sock = some (dstPtr b) := hr
      exact ⟨p, List.mem_of_getElem? hp, by simp [hr']⟩
    · obtain ⟨p, hp, hq⟩ := pool_of_queue (L.queued.mpr hb)
      exact ⟨p, List.mem_of_getElem? hp, by simp [hq]⟩

theorem dest_of_eq (L : Ledger (view d) claim home) : destOf d = dests d.heap home := by
  funext b
  unfold destOf dests
  cases hc : d.heap b with
  | none => rfl
  | some c =>
    have hiff := carried_iff L hc
    simp only [Option.bind_some]
    cases hb : home b with
    | none => simp [hb] at hiff; simp [hiff]
    | some h =>
      cases h with
      | held i => simp [hb] at hiff; simp [hiff]
      | queued i => simp [hb] at hiff; simp [hiff]
      | hand => simp [hb] at hiff; simp [hiff]

theorem dests_held (hc : heap b = some c) (hb : home b = some (.held i)) :
    dests heap home b = some c.dst.addr := by
  simp [dests, hc, hb]

theorem dests_keep (hb : home b = some (.held i)) :
    dests (update heap b (some c')) home = update (dests heap home) b (some c'.dst.addr) := by
  funext b'
  by_cases he : b' = b
  · subst he
    simp [dests, hb]
  · simp [dests, he]

theorem dests_leave (x : Option Conn) :
    dests (update heap b x) (update home b none) = update (dests heap home) b none := by
  funext b'
  by_cases he : b' = b
  · subst he
    cases x <;> simp [dests]
  · simp [dests, he]

end dests

/-- One account changes in the daemon as it does in the router. -/
def AccountMoves (f f' : Nat → Option SockAddr) (next : Nat) (r r' : Router) : Prop :=
  ∃ b y, b < next ∧ f' = update f b y ∧ Moves r r' (fun a => mark y a - mark (f b) a) ∧
    ∀ a, y = some a → a ∈ addrs r

theorem shift_same (hb : b < next) (hl : ∀ a, f b = some a → a ∈ addrs r) (h : f' = f) (hr : r' = r) :
    AccountMoves f f' next r r' := by
  refine ⟨b, f b, hb, by rw [h, update_eq_self], ?_, hl⟩
  subst hr
  refine ⟨rfl, fun x => ?_⟩
  omega

/-- The router's books after a failed asynchronous connect. -/
theorem again_moves (cnf : Cnf) (hn : (addrs w.router).Nodup) (ha : c.dst.addr ∈ addrs w.router)
    (env : CompleteEnv) :
    Moves w.router (again cnf w c env).1
      (fun x => mark (again cnf w c env).2 x - mark (some c.dst.addr) x) ∧
    ∀ a, (again cnf w c env).2 = some a → a ∈ addrs w.router := by
  have hdis := disconnect_moves cnf hn ha env.now true
  have hn' : (addrs (glbRouterDisconnect cnf env.now w.router c.dst.addr true)).Nodup :=
    hdis.addrs.symm ▸ hn
  unfold again glbRouterChooseDstAgain glbRouterChooseDst
  cases hch : routerChooseDst cnf env.choose
      (routerDisconnect cnf env.now w.router c.dst.addr true).1 (poolHint cnf c.inc) with
  | mk r' ret =>
    obtain ⟨hm, _, hl⟩ := choose_moves hn' env.choose (poolHint cnf c.inc) hch
    refine ⟨⟨hm.addrs.trans hdis.addrs, fun x => ?_⟩, fun a h => hdis.addrs ▸ hl a h⟩
    have h1 := hm.conns x
    have h2 := hdis.conns x
    simp only at h1 h2 ⊢
    omega

/-- Every event on a connection is booked on both sides, except for a read from a
server that is not connected. -/
theorem effect_shift (hn : (addrs w.router).Nodup)
    (hl : ∀ b a, dests w.heap home b = some a → a ∈ addrs w.router) (hb : home b = some (.held i))
    (hc : w.heap b = some c) (hlt : b < next) (he : Effect cnf w b c reads home u home') :
    AccountMoves (dests w.heap home) (dests u.heap home') next w.router u.router ∨
      (reads = some .dst ∧ c.dst.kind = .incomplete ∧
        dests u.heap home' = update (dests w.heap home) b none ∧ u.router = w.router) := by
  have hd := dests_held hc hb
  have ha := hl b _ hd
  cases he with
  | kept hh haddr hr =>
    have hsame : dests u.heap home = dests w.heap home := by
      rw [hh, dests_keep hb, haddr, ← hd, update_eq_self]
    exact Or.inl (shift_same hlt (hl b) hsame hr)
  | closed hh hr =>
    have hm := disconnect_moves cnf hn ha 0 false
    refine Or.inl ⟨b, none, hlt, by rw [hh, dests_leave], ?_, by simp⟩
    rw [hr, hd]
    exact ⟨hm.addrs, fun x => by rw [hm.conns, mark_none, Int.zero_sub]⟩
  | detached ho hi hh hr =>
    refine Or.inr ⟨ho, hi, ?_, hr⟩
    rw [hh, ← dests_leave (w.heap b), update_eq_self]
  | @refused env hh hnone hr =>
    obtain ⟨hm, _⟩ := again_moves cnf hn ha env
    refine Or.inl ⟨b, none, hlt, by rw [hh, dests_leave], ?_, by simp⟩
    rw [hr, hd, ← hnone]
    exact hm
  | @moved env addr c' hh haddr hs hr =>
    obtain ⟨hm, hlist⟩ := again_moves cnf hn ha env
    refine Or.inl ⟨b, some addr, hlt, by rw [hh, dests_keep hb, haddr], ?_,
      fun a h => hlist a (hs.trans h)⟩
    rw [hr, hd, ← hs]
    exact hm
  | @abandoned env addr now hh hs hr =>
    obtain ⟨hm, hlist⟩ := again_moves cnf hn ha env
    have hn' : (addrs (again cnf w c env).1).Nodup := hm.addrs.symm ▸ hn
    have ha' : addr ∈ addrs (again cnf w c env).1 := hm.addrs.symm ▸ hlist addr hs
    have hdis := disconnect_moves cnf hn' ha' now true
    refine Or.inl ⟨b, none, hlt, by rw [hh, dests_leave], ?_, by simp⟩
    rw [hr, hd]
    refine ⟨hdis.addrs.trans hm.addrs, fun x => ?_⟩
    rw [hdis.conns, hm.conns, hs, mark_none]
    omega

/-- A block that waits in a pipe counts as well. -/
theorem dests_queued (hc : heap b = some c) (hb : home b = some (.queued i)) :
    dests heap home b = some c.dst.addr := by
  simp [dests, hc, hb]

theorem dests_serve (hc : heap b = some c) (hb : home b = some (.queued i))
    (ha : c'.dst.addr = c.dst.addr) :
    dests (update heap b (some c')) (update home b (some (.held i))) = dests heap home := by
  funext b'
  by_cases he : b' = b
  · subst he
    simp [dests, hc, hb, ha]
  · simp [dests, he]

/-- The steps that take connections from a pool without telling the router: a read
from a server that is not connected, and the ctls that close connections. -/
def Unbooked (i : Nat) (w : World) (op : DaemonOp) : Prop :=
  (∃ b c recv send, Held w b c ∧ Kinds c ∧ c.dst.kind = .incomplete ∧
    op = .read i c.dst.sock recv send) ∨
  (∃ a q, w.pipe = .dropDst a :: q) ∨ ∃ q, w.pipe = .shutdown :: q

theorem removals_dests (hr : Removals cnf w u) (L : Ledger (seen v i w) claim home) :
    ∃ claim' home', Ledger (seen v i u) claim' home' ∧ u.router = w.router ∧
      ∀ b a, dests u.heap home' b = some a → dests w.heap home b = some a := by
  refine removals_keep (fun x => ∃ claim' home', Ledger (seen v i x) claim' home' ∧
    x.router = w.router ∧ ∀ b a, dests x.heap home' b = some a → dests w.heap home b = some a)
    hr ?_ ?_ ?_ ⟨claim, home, L, rfl, fun _ _ h => h⟩
  · intro x x' hb hx
    obtain ⟨claim', home', L', hr', hd⟩ := hx
    have hheap : x'.heap = x.heap := congrArg (fun w => w.heap) hb
    have hrouter : x'.router = x.router := congrArg (fun w => w.router) hb
    refine ⟨claim', home', ?_, hrouter.trans hr', hheap.symm ▸ hd⟩
    rw [seen_bare hb]
    exact L'
  · intro x b c hh _ hx
    obtain ⟨claim', home', L', hr', hd⟩ := hx
    obtain ⟨claim2, L2⟩ := ledger_gone cnf L' (held_home L' hh) hh.block false
    refine ⟨claim2, _, L2, hr', ?_⟩
    intro b' a ha
    rw [gone_heap, dests_leave] at ha
    exact hd b' a (update_none ha)
  · intro x b c hh _ _ hx
    obtain ⟨claim', home', L', hr', hd⟩ := hx
    obtain ⟨claim2, L2⟩ := ledger_detached L' (held_home L' hh) hh.block
    refine ⟨claim2, _, L2, hr', ?_⟩
    intro b' a ha
    have hheap : (detached x c).heap = update x.heap b (x.heap b) := (update_eq_self b x.heap).symm
    rw [hheap, dests_leave] at ha
    exact hd b' a (update_none ha)

/-- Every step of a pool thread is booked on both sides, or it only takes
connections away. -/
theorem fate_account (hn : (addrs w.router).Nodup)
    (hl : ∀ b a, dests w.heap home b = some a → a ∈ addrs w.router)
    (L : Ledger (seen v i w) claim home) (hs : w.shutdown = false) (hf : Fate cnf i w op u) :
    ∃ claim' home', Ledger (seen v i u) claim' home' ∧
      (AccountMoves (dests w.heap home) (dests u.heap home') v.next w.router u.router ∨
        (dests u.heap home' = dests w.heap home ∧ u.router = w.router) ∨
        (Unbooked i w op ∧ u.router = w.router ∧
          ∀ b a, dests u.heap home' b = some a → dests w.heap home b = some a)) := by
  cases hf with
  | @read b c s recv send _ hh hk hf =>
    have hb := held_home L hh
    obtain ⟨claim', home', L', he⟩ := read_effect L hb hh.block hf
    refine ⟨claim', home', L', ?_⟩
    rcases effect_shift hn hl hb hh.block (L.below hh.block) he with hs | ⟨ho, hi, hd, hr⟩
    · exact Or.inl hs
    · simp only [Option.some.injEq] at ho
      refine Or.inr (Or.inr ⟨Or.inl ⟨b, c, recv, send, hh, hk, hi, by rw [ho]; rfl⟩, hr, ?_⟩)
      intro b' a ha
      rw [hd] at ha
      exact update_none ha
  | write hh hk hf =>
    have hb := held_home L hh
    obtain ⟨claim', home', L', he⟩ := write_effect L hb hh.block hf
    refine ⟨claim', home', L', ?_⟩
    rcases effect_shift hn hl hb hh.block (L.below hh.block) he with hs | ⟨ho, _⟩
    · exact Or.inl hs
    · cases ho
  | @lost b c q l env hp hc hneg hsil =>
    obtain ⟨hb, L1⟩ := ledger_popped L hp
    obtain ⟨claim', L'⟩ := ledger_lost cnf L1 (by simp) (L.unique hb hc).2.1 env.now l
    rw [update_idem] at L'
    have hd := dests_queued hc hb
    have hm := disconnect_moves cnf hn (hl b _ hd) env.now true
    refine ⟨claim', _, L', Or.inl ⟨b, none, L.below hc, dests_leave none, ?_, by simp⟩⟩
    rw [hd]
    exact ⟨hm.addrs, fun x => (hm.conns x).trans (by rw [mark_none, Int.zero_sub])⟩
  | @added b c q w1 c1 env hp hc hs =>
    obtain ⟨hb, L1⟩ := ledger_popped L hp
    obtain ⟨claim', L'⟩ := ledger_added L1 (by simp) hc hs
    rw [update_idem] at L'
    refine ⟨claim', _, L', Or.inr (Or.inl ?_)⟩
    rcases hs with ⟨_, rfl, rfl⟩ | ⟨_, fd, _, _, rfl, rfl⟩
    · exact ⟨by rw [attached_heap]; exact dests_serve hc hb rfl, rfl⟩
    · exact ⟨by rw [attached_heap]; exact dests_serve hc hb rfl, rfl⟩
  | stats env hp =>
    exact ⟨claim, home, booked_popped L hp (by simp), Or.inr (Or.inl ⟨rfl, rfl⟩)⟩
  | @dropped a q w1 u env hp hw hr =>
    have L1 := booked_popped L hp (by simp)
    rw [← seen_bare hw] at L1
    obtain ⟨claim', home', L', hrouter, hd⟩ := removals_dests hr L1
    have hheap : w1.heap = w.heap := congrArg (fun w => w.heap) hw
    have hr1 : w1.router = w.router := congrArg (fun w => w.router) hw
    exact ⟨claim', home', L', Or.inr (Or.inr ⟨Or.inr (Or.inl ⟨a, q, hp⟩), hrouter.trans hr1,
      hheap ▸ hd⟩)⟩
  | @shutdown q w1 u env hp hw hr =>
    have L1 := booked_popped L hp (by simp)
    rw [← seen_bare hw] at L1
    obtain ⟨claim', home', L', hrouter, hd⟩ := removals_dests hr L1
    have hs1 : w1.shutdown = false := (congrArg (fun w => w.shutdown) hw).trans hs
    obtain ⟨claim2, L2⟩ := ledger_ended L' (removals_running hr hs1)
    have hheap : w1.heap = w.heap := congrArg (fun w => w.heap) hw
    have hr1 : w1.router = w.router := congrArg (fun w => w.router) hw
    exact ⟨claim2, home', L2, Or.inr (Or.inr ⟨Or.inr (Or.inr ⟨q, hp⟩), hrouter.trans hr1,
      hheap ▸ hd⟩)⟩

theorem again_busy (cnf : Cnf) (w : World) (c : Conn) (env : CompleteEnv) :
    (again cnf w c env).1.busyCount = w.router.busyCount := by
  unfold again glbRouterChooseDstAgain glbRouterChooseDst
  cases hch : routerChooseDst cnf env.choose
      (routerDisconnect cnf env.now w.router c.dst.addr true).1 (poolHint cnf c.inc) with
  | mk r' ret =>
    exact (choose_busy hch).trans (disconnect_busy cnf env.now w.router c.dst.addr true)

/-- No pool connects on behalf of the listener. -/
theorem fate_busy (hf : Fate cnf i w op u) : u.router.busyCount = w.router.busyCount := by
  have hrem : ∀ {w1 u q}, bare w1 = bare (popped w q) → Removals cnf w1 u →
      u.router.busyCount = w.router.busyCount := by
    intro w1 u q hw hr
    have hw1 : w1.router = w.router := congrArg (fun w => w.router) hw
    refine removals_keep (fun v => v.router.busyCount = w.router.busyCount) hr ?_ ?_ ?_
      (congrArg Router.busyCount hw1)
    · intro v v' hb h
      exact (congrArg (fun w => w.router.busyCount) hb).trans h
    · intro v b c _ _ h
      exact h
    · intro v b c _ _ _ h
      exact h
  cases hf with
  | read hh hk hf =>
    cases hf with
    | full _ => rfl
    | nothing _ => rfl
    | closed _ _ => exact disconnect_busy _ _ _ _ _
    | detach _ _ _ => rfl
    | passed _ _ _ _ _ _ => rfl
    | broken _ _ _ _ _ => exact disconnect_busy _ _ _ _ _
  | write hh hk hf =>
    cases hf with
    | drained _ => rfl
    | passed _ => rfl
    | broken _ => exact disconnect_busy _ _ _ _ _
    | refused _ _ _ => exact again_busy cnf w _ _
    | moved _ _ _ _ _ _ _ => exact again_busy cnf w _ _
    | abandoned _ _ _ _ _ _ => exact (disconnect_busy _ _ _ _ _).trans (again_busy cnf w _ _)
  | lost env hp hc hd hl => exact disconnect_busy _ _ _ _ _
  | added env hp hc hs => rcases hs with ⟨_, rfl, rfl⟩ | ⟨_, fd, _, _, rfl, rfl⟩ <;> rfl
  | stats env hp => rfl
  | dropped env hp hw hr => exact hrem hw hr
  | shutdown env hp hw hr =>
    have hu := hrem hw hr
    exact hu

end Glb.Proofs.LiveConns
