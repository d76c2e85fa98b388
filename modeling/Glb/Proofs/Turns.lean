import Glb.Proofs.LiveConns

namespace Glb.Proofs.Turns
open Function Lib.Run Lib.Tally PoolFrame PoolEvents DaemonSteps Ownership DaemonLedger Registry Blocks
open RouterRun RouterCount LiveConns

variable {build : Build} {cnf : Cnf} {ctrl : Ctrl} {d d' : Daemon} {w u : World} {op : DaemonOp}
variable {claim : Owner → Option Fd} {home home' : Nat → Option Home} {heap : Nat → Option Conn}
variable {i b : Nat} {c c' : Conn} {r r' : Router}

/-- What the listener adds to `busy_count`. -/
def connects : Listener → Int
  | .connecting _ _ _ _ _ => 1
  | _ => 0

/-- Every connection that is in a pool or on its way to one goes to a listed
server. -/
structure Listing (d : Daemon) : Prop where
  nodup : (addrs d.router).Nodup
  listed : ∀ b a, destOf d b = some a → a ∈ addrs d.router
  held : ∀ a, listenerDst d = some a → a ∈ addrs d.router
  aims : d.listener ≠ .idle → ∃ a, listenerDst d = some a
  busy : d.router.busyCount = connects d.listener

/-- A step that changes as many accounts in the router as in the daemon, and not
the list of servers. -/
structure Turn (d d' : Daemon) (f : SockAddr → Int) : Prop where
  moves : Moves d.router d'.router f
  listed : ∀ b a, destOf d' b = some a → a ∈ addrs d.router
  held : ∀ a, listenerDst d' = some a → a ∈ addrs d.router
  aims : d'.listener ≠ .idle → ∃ a, listenerDst d' = some a
  busy : d'.router.busyCount + connects d.listener = d.router.busyCount + connects d'.listener
  live : ∀ a, liveConns d' a = liveConns d a + f a

theorem Listing.turn (h : Listing d) (ht : Turn d d' f) : Listing d' where
  nodup := ht.moves.addrs.symm ▸ h.nodup
  listed := fun b a ha => ht.moves.addrs.symm ▸ ht.listed b a ha
  held := fun a ha => ht.moves.addrs.symm ▸ ht.held a ha
  aims := ht.aims
  busy := by
    have h1 := ht.busy
    have h2 := h.busy
    omega

theorem Turn.trans (h : Turn d e f) (h' : Turn e d' g) : Turn d d' (fun a => f a + g a) where
  moves := h.moves.trans h'.moves
  listed := fun b a ha => h.moves.addrs ▸ h'.listed b a ha
  held := fun a ha => h.moves.addrs ▸ h'.held a ha
  aims := h'.aims
  busy := by
    have h1 := h.busy
    have h2 := h'.busy
    omega
  live := fun a => by rw [h'.live, h.live, Int.add_assoc]

theorem listener_dst_eq (hl : d'.listener = d.listener) (ha : addrs d'.router = addrs d.router) :
    listenerDst d' = listenerDst d := by
  unfold listenerDst
  rw [hl]
  cases d.listener with
  | idle => rfl
  | connecting inc addr sock hint i => simp only [addr_at, ha]
  | chosen inc addr sock dst complete => rfl

/-- A step of the listener that hands nothing to a pool. -/
theorem turn_listener (h : Listing d) (hd : destOf d' = destOf d) (hnext : d'.nextBlock = d.nextBlock)
    (hm : Moves d.router d'.router (fun a => mark (listenerDst d') a - mark (listenerDst d) a))
    (hheld : ∀ a, listenerDst d' = some a → a ∈ addrs d.router)
    (haims : d'.listener ≠ .idle → ∃ a, listenerDst d' = some a)
    (hbusy : d'.router.busyCount + connects d.listener =
      d.router.busyCount + connects d'.listener) :
    Turn d d' (fun a => mark (listenerDst d') a - mark (listenerDst d) a) := by
  refine ⟨hm, ?_, hheld, haims, hbusy, ?_⟩
  · intro b a ha
    exact h.listed b a (hd ▸ ha)
  · intro a
    unfold liveConns
    rw [hd, hnext]
    omega

theorem mark_self_moves (hb : book r' = book r) (x : Option SockAddr) :
    Moves r r' (fun a => mark x a - mark x a) :=
  ⟨congrArg (List.map Prod.fst) hb, fun a => by unfold connsOf; rw [hb]; omega⟩

theorem accept_turn (h : Listing d) (hl : d.listener = .idle)
    (hf : AcceptFate cnf d fd addr env d') : ∃ f, Turn d d' f := by
  have hidle : listenerDst d = none := by simp [listenerDst, hl]
  have hchoose : ∀ {q x}, glbRouterChooseDst cnf env d.router (connectHint cnf addr) = (q, x) →
      Moves d.router q (mark x) ∧ (∀ a, x = some a → a ∈ addrs d.router) ∧
        q.busyCount = d.router.busyCount := by
    intro q x hq
    unfold glbRouterChooseDst at hq
    cases hch : routerChooseDst cnf env d.router (connectHint cnf addr) with
    | mk q' ret =>
      simp only [hch, Prod.mk.injEq] at hq
      obtain ⟨rfl, rfl⟩ := hq
      obtain ⟨hm, _, hlist⟩ := choose_moves h.nodup env (connectHint cnf addr) hch
      exact ⟨hm, hlist, choose_busy hch⟩
  cases hf with
  | turned l _ =>
    refine ⟨_, turn_listener h rfl rfl (mark_self_moves rfl _) ?_ h.aims rfl⟩
    intro a ha
    exact h.held a ha
  | none q l _ hq =>
    have hdst : listenerDst { noted d l with router := q } = none := by
      simp [listenerDst, noted, hl]
    obtain ⟨hm, _, hbusy⟩ := hchoose hq
    refine ⟨_, turn_listener h rfl rfl ?_ (by simp [hdst]) (by simp [noted, hl])
      (congrArg (· + connects d.listener) hbusy)⟩
    rw [hdst, hidle]
    exact ⟨hm.addrs, fun a => (hm.conns a).trans (by simp)⟩
  | noneSync q l _ hq =>
    have hdst : listenerDst { noted d l with router := routerConnectEnd q } = none := by
      simp [listenerDst, noted, hl]
    obtain ⟨hm, _, _, hbusy⟩ := start_moves h.nodup env _ hq
    refine ⟨_, turn_listener h rfl rfl ?_ (by simp [hdst]) (by simp [noted, hl]) ?_⟩
    · rw [hdst, hidle]
      exact ⟨hm.addrs, fun a => (hm.conns a).trans (by simp [Router.addrAt])⟩
    · simp only [routerConnectEnd, noted, hbusy]
      omega
  | chosen q dst hq =>
    obtain ⟨hm, hlist, hbusy⟩ := hchoose hq
    refine ⟨_, turn_listener h rfl rfl ?_ ?_ (fun _ => ⟨dst, rfl⟩) ?_⟩
    · rw [hidle]
      exact ⟨hm.addrs, fun a => (hm.conns a).trans (by simp [listenerDst])⟩
    · intro a ha
      exact hlist a ha
    · simp [connects, hl, hbusy]
  | connecting q i sock _ _ hq =>
    obtain ⟨hm, hlist, hin, hbusy⟩ := start_moves h.nodup env _ hq
    refine ⟨_, turn_listener h rfl rfl ?_ ?_ ?_ ?_⟩
    · rw [hidle]
      exact ⟨hm.addrs, fun a => (hm.conns a).trans (by simp [listenerDst])⟩
    · intro a ha
      exact hlist a ha
    · intro _
      obtain ⟨e, he⟩ := hin i rfl
      exact ⟨e.dst.addr, by simp [listenerDst, Router.addrAt, he]⟩
    · simp [connects, hl, hbusy]

theorem connected_turn (h : Listing d) (hl : d.listener = .connecting inc addr sock hint i)
    (hf : ConnectedFate cnf d inc addr sock hint i now env d') : ∃ f, Turn d d' f := by
  obtain ⟨a, ha⟩ := h.aims (by simp [hl])
  have hai : d.router.addrAt (some i) = some a := by simpa [listenerDst, hl] using ha
  have hend : book (routerConnectEnd d.router) = book d.router := rfl
  cases hf with
  | retry q j hq =>
    obtain ⟨hm, hlist, hin, hbusy⟩ := retry_moves h.nodup hai now env hint hq
    refine ⟨_, turn_listener h rfl rfl ?_ hlist ?_ (by simp [connects, hl, hbusy])⟩
    · rw [ha]
      exact hm
    · intro _
      obtain ⟨e, he⟩ := hin j rfl
      exact ⟨e.dst.addr, by simp [listenerDst, Router.addrAt, he]⟩
  | failed q hq =>
    obtain ⟨hm, _, _, hbusy⟩ := retry_moves h.nodup hai now env hint hq
    refine ⟨_, turn_listener h rfl rfl ?_ (by simp [listenerDst, Daemon.close])
      (by simp [Daemon.close]) ?_⟩
    · rw [ha]
      exact ⟨hm.addrs, hm.conns⟩
    · simp [connects, hl, Daemon.close, routerConnectEnd, hbusy]
  | done dst hdst =>
    have hsame : a = dst := Option.some.inj (hai.symm.trans hdst)
    refine ⟨_, turn_listener h rfl rfl ?_ (fun x hx => h.held x (ha.trans (hsame ▸ hx)))
      (fun _ => ⟨dst, rfl⟩) (by simp [connects, hl, routerConnectEnd])⟩
    rw [ha, hsame]
    exact mark_self_moves hend (some dst)
  | pending dst hdst =>
    have hsame : a = dst := Option.some.inj (hai.symm.trans hdst)
    refine ⟨_, turn_listener h rfl rfl ?_ (fun x hx => h.held x (ha.trans (hsame ▸ hx)))
      (fun _ => ⟨dst, rfl⟩) (by simp [connects, hl, routerConnectEnd])⟩
    rw [ha, hsame]
    exact mark_self_moves hend (some dst)

theorem undo_turn (cnf : Cnf) (h : Listing d) (hl : d.listener = .chosen inc addr sock dst complete) :
    ∃ f, Turn d (listenerUndo cnf d inc sock dst) f := by
  have ha : listenerDst d = some dst := by simp [listenerDst, hl]
  have hm := disconnect_moves cnf h.nodup (h.held dst ha) 0 false
  refine ⟨_, turn_listener h rfl rfl ?_ (by simp [listenerDst, listenerUndo, Daemon.close])
    (by simp [listenerUndo, Daemon.close])
    (by simp [connects, hl, listenerUndo, Daemon.close, disconnect_busy])⟩
  rw [ha]
  exact ⟨hm.addrs, fun x => (hm.conns x).trans
    (by simp [listenerDst, listenerUndo, Daemon.close])⟩

/-- A block that nobody has been given does not count. -/
theorem alloc_turn (h : Listing d) (L : Ledger (view d) claim home) (c : Conn) :
    Turn d (allocated d c) (fun _ => 0) := by
  have hhome : home d.nextBlock = none := L.home_next
  have hnone : destOf d d.nextBlock = none := by
    rw [dest_of_eq L, dests, hhome]
    cases d.heap d.nextBlock <;> rfl
  have hsame : destOf (allocated d c) = destOf d := by
    rw [dest_of_eq (ledger_alloc L c), dest_of_eq L]
    funext b
    by_cases hb : b = d.nextBlock
    · subst hb
      simp only [dests, hhome]
      cases d.heap d.nextBlock <;> simp [allocated]
    · simp [dests, allocated, hb]
  refine ⟨Moves.of_kept (BookKept.refl _), ?_, h.held, h.aims, rfl, ?_⟩
  · intro b a ha
    exact h.listed b a (hsame ▸ ha)
  · intro a
    have hnext : (allocated d c).nextBlock = d.nextBlock + 1 := rfl
    have hdst : listenerDst (allocated d c) = listenerDst d := rfl
    unfold liveConns
    rw [hsame, hnext, hdst, tally_succ, hnone, mark_none]
    omega

/-- The listener's connection becomes a pool's. -/
theorem queued_turn (h : Listing d) (L : Ledger (view d) claim home)
    (hl : d.listener = .chosen inc addr sock dst complete)
    (hi : poolGetPool d.pools < d.pools.length) :
    Turn d (enqueued (allocated d (newConn inc addr sock dst complete)) (poolGetPool d.pools)
      d.nextBlock) (fun _ => 0) := by
  obtain ⟨claim', L'⟩ := ledger_queued L hl hi
  have hold : listenerDst d = some dst := by simp [listenerDst, hl]
  have hdest : destOf (enqueued (allocated d (newConn inc addr sock dst complete))
      (poolGetPool d.pools) d.nextBlock) = update (destOf d) d.nextBlock (some dst) := by
    rw [dest_of_eq L', dest_of_eq L]
    funext b
    by_cases hb : b = d.nextBlock
    · subst hb
      simp [dests, enqueued, allocated, newConn]
    · simp [dests, enqueued, allocated, hb]
  refine ⟨Moves.of_kept (BookKept.refl _), ?_, by simp [listenerDst, enqueued], by simp [enqueued],
    by simp [connects, hl, enqueued, allocated], ?_⟩
  · intro b a ha
    rw [hdest] at ha
    rcases update_eq_some ha with ⟨_, hx⟩ | ⟨_, ha⟩
    · exact h.held a (hold.trans hx)
    · exact h.listed b a ha
  · intro a
    have hnext : (enqueued (allocated d (newConn inc addr sock dst complete)) (poolGetPool d.pools)
        d.nextBlock).nextBlock = d.nextBlock + 1 := rfl
    have hdst : listenerDst (enqueued (allocated d (newConn inc addr sock dst complete))
        (poolGetPool d.pools) d.nextBlock) = none := rfl
    unfold liveConns
    rw [hdest, hnext, hdst, hold, tally_succ, update_self,
      tally_update_ge _ _ _ (Nat.le_refl d.nextBlock), mark_none]

theorem get_pool_loop_lt (ps : List Pool) (i ret : Nat) (m : Int) (h : ret < i) :
    getPoolLoop ps i (ret, m) < i + ps.length := by
  induction ps generalizing i ret m with
  | nil => simpa [getPoolLoop] using h
  | cons p ps ih =>
    simp only [getPoolLoop, List.length_cons]
    split
    · have := ih (i + 1) i p.nConns (Nat.lt_succ_self i)
      omega
    · have := ih (i + 1) ret m (by omega)
      omega

theorem get_pool_lt (h : ps ≠ []) : poolGetPool ps < ps.length := by
  cases ps with
  | nil => exact absurd rfl h
  | cons p ps =>
    have := get_pool_loop_lt ps 1 0 p.nConns (by omega)
    simp only [poolGetPool, List.length_cons]
    omega

theorem listing_init (pipes : List Fd) (used : Fd → Bool) :
    Listing (Daemon.init pipes used Router.init) where
  nodup := List.nodup_nil
  listed := by
    intro b a ha
    simp [destOf, Daemon.init] at ha
  held := by
    intro a ha
    simp [listenerDst, Daemon.init] at ha
  aims := fun h => absurd rfl h
  busy := rfl

section pools

theorem shift_turn (h : Listing d)
    (hs : AccountMoves (destOf d) (destOf d') d.nextBlock d.router d'.router)
    (hnext : d'.nextBlock = d.nextBlock) (hl : d'.listener = d.listener)
    (hbusy : d'.router.busyCount = d.router.busyCount) : ∃ f, Turn d d' f := by
  obtain ⟨b, y, hlt, hf, hm, hy⟩ := hs
  have hdst := listener_dst_eq hl hm.addrs
  refine ⟨_, hm, ?_, ?_, ?_, by rw [hl, hbusy], ?_⟩
  · intro b' a ha
    rw [hf] at ha
    rcases update_eq_some ha with ⟨_, hx⟩ | ⟨_, ha⟩
    · exact hy a hx
    · exact h.listed b' a ha
  · intro a ha
    exact h.held a (hdst ▸ ha)
  · rw [hdst, hl]
    exact h.aims
  · intro a
    unfold liveConns
    rw [hnext, hdst, hf, tally_update _ y a hlt]
    omega

theorem same_turn (h : Listing d) (hd : destOf d' = destOf d) (hr : d'.router = d.router)
    (hnext : d'.nextBlock = d.nextBlock) (hl : d'.listener = d.listener) : ∃ f, Turn d d' f := by
  have hdst : listenerDst d' = listenerDst d := listener_dst_eq hl (by rw [hr])
  refine ⟨_, turn_listener h hd hnext ?_ ?_ ?_ (by rw [hl, hr])⟩
  · rw [hdst]
    exact mark_self_moves (by rw [hr]) _
  · intro a ha
    exact h.held a (hdst ▸ ha)
  · rw [hdst, hl]
    exact h.aims

/-- A step of a pool thread is booked, or it only takes connections away. -/
theorem pool_turn (h : Listing d) (L : Ledger (view d) claim home)
    (hs : PoolStep cnf d op d' i p u w') :
    (∃ f, Turn d d' f) ∨ (Unbooked i (d.world p) op ∧ Listing d') := by
  obtain ⟨hp, hrun, hf, hbare, rfl⟩ := hs
  have hdest := dest_of_eq L
  have hlist : ∀ b a, dests (d.world p).heap home b = some a → a ∈ addrs (d.world p).router := by
    intro b a ha
    exact h.listed b a (hdest ▸ ha)
  obtain ⟨claim', home', L', hsh⟩ := fate_account h.nodup hlist (pool_ledger L hp) hrun hf
  have hview : view (d.put i w') = seen (view d) i u := by
    rw [view_put (List.getElem?_eq_some_iff.mp hp).1, seen_bare hbare]
  have hheap : w'.heap = u.heap := congrArg (fun w => w.heap) hbare
  have hdest' : destOf (d.put i w') = dests u.heap home' := by
    rw [dest_of_eq (hview ▸ L' : Ledger (view (d.put i w')) claim' home')]
    exact congrArg (fun h => dests h home') hheap
  have hrouter : (d.put i w').router = u.router := congrArg (fun w => w.router) hbare
  have hbusy : (d.put i w').router.busyCount = d.router.busyCount := by
    rw [hrouter]
    exact fate_busy hf
  rcases hsh with hsh | ⟨hsame, hr⟩ | ⟨hun, hr, hsub⟩
  · refine Or.inl (shift_turn h ?_ rfl rfl hbusy)
    rw [hdest, hdest', hrouter]
    exact hsh
  · refine Or.inl (same_turn h ?_ (hrouter.trans hr) rfl rfl)
    rw [hdest', hsame, hdest]
    rfl
  · have hr' : (d.put i w').router = d.router := hrouter.trans hr
    have hdst : listenerDst (d.put i w') = listenerDst d := listener_dst_eq rfl (by rw [hr'])
    refine Or.inr ⟨hun, by rw [hr']; exact h.nodup, ?_, ?_, ?_, by rw [hr']; exact h.busy⟩
    · intro b a ha
      rw [hdest'] at ha
      rw [hr']
      exact h.listed b a (hdest ▸ hsub b a ha)
    · intro a ha
      rw [hr']
      exact h.held a (hdst ▸ ha)
    · rw [hdst]
      exact h.aims

end pools

section requests

/-- A request does not change the server the listener connects to: while it
connects, no server is added or removed. -/
theorem request_dst (h : Listing d) (hq : ctrlHandleRequest cnf ctrl d req env = some d') :
    listenerDst d' = listenerDst d := by
  obtain ⟨_, _, _, _, hl, _⟩ := request_frame hq
  rcases request_router hq with hr | ⟨dst, _, hwait, hr⟩
  · exact listener_dst_eq hl (by rw [hr])
  · cases hx : d.listener with
    | idle => simp [listenerDst, hl, hx]
    | chosen inc addr sock a complete => simp [listenerDst, hl, hx]
    | connecting inc addr sock hint i =>
      have hbusy : d.router.busyCount > 0 := by simp [h.busy, hx, connects]
      simp only [routerChangeWaits, hbusy, decide_true, Bool.and_true, bne_eq_false_iff_eq] at hwait
      by_cases hw : dst.weight < 0
      · -- nothing to remove
        have hsame : d'.router = d.router := by
          rw [hr]
          simp [glbRouterChangeDst, hwait, hw]
        exact listener_dst_eq hl (by rw [hsame])
      · obtain ⟨_, _, t, ht⟩ := change_accounts cnf h.nodup (not_lt.mp hw) env none
        obtain ⟨a, ha⟩ := h.aims (by simp [hx])
        simp only [listenerDst, hx, addr_at] at ha
        simp only [listenerDst, hl, hx, addr_at, hr]
        rw [← ht, List.getElem?_append_left (List.getElem?_eq_some_iff.mp ha).1]

/-- No connection goes to a server that the request removes. -/
def Unused (d : Daemon) (dst : Dst) : Prop :=
  dst.weight < 0 → listenerDst d ≠ some dst.addr ∧ ∀ b < d.nextBlock, destOf d b ≠ some dst.addr

theorem request_dests (L : Ledger (view d) claim home)
    (hq : ctrlHandleRequest cnf ctrl d req env = some d') : destOf d' = destOf d := by
  obtain ⟨hs, hheap, hopen, _, hlst, hnext⟩ := request_frame hq
  have L' : Ledger (view d') claim home := (view_signalled hs hheap hopen hlst hnext).symm ▸ L
  rw [dest_of_eq L', dest_of_eq L, hheap]

/-- What one step of the daemon means for its books. -/
inductive Course (cnf : Cnf) (ctrl : Ctrl) (d : Daemon) : DaemonOp → Daemon → Prop
  | turn {op d' f} (h : Turn d d' f) : Course cnf ctrl d op d'
  | unbooked {op d' i p} (hp : d.pools[i]? = some p) (h : Unbooked i (d.world p) op)
    (hl : Listing d') : Course cnf ctrl d op d'
  | request {req env d'} (h : ctrlHandleRequest cnf ctrl d req env = some d') :
    Course cnf ctrl d (.request req env) d'

theorem bcast_turn (h : Listing d) (L : Ledger (view d) claim home) (ctl : PoolCtl)
    (hc : ∀ b, ctl ≠ .addConn b) : ∃ f, Turn d (poolBcastCtl d ctl) f := by
  have hv := view_signalled (bcast_signalled (d := d) ctl hc) rfl rfl rfl rfl
  have L' : Ledger (view (poolBcastCtl d ctl)) claim home := hv.symm ▸ L
  refine same_turn h ?_ rfl rfl rfl
  rw [dest_of_eq L', dest_of_eq L]
  rfl

theorem step_course (h : Listing d) (L : Ledger (view d) claim home) (hp : d.pools ≠ [])
    (hs : Step cnf ctrl d op d') : Course cnf ctrl d op d' := by
  cases hs with
  | accept hl _ _ hf =>
    obtain ⟨f, ht⟩ := accept_turn h hl hf
    exact .turn ht
  | connected hl hf =>
    obtain ⟨f, ht⟩ := connected_turn h hl hf
    exact .turn ht
  | @addConn _ _ inc addr sock dst complete _ hl hf =>
    cases hf with
    | noMemory =>
      obtain ⟨f, ht⟩ := undo_turn cnf h hl
      exact .turn ht
    | unsent =>
      have ha := alloc_turn h L (newConn inc addr sock dst complete)
      obtain ⟨f, ht⟩ := undo_turn cnf (h.turn ha) hl
      exact .turn (ha.trans ht)
    | queued => exact .turn (queued_turn h L hl (get_pool_lt hp))
  | pool hs =>
    rcases pool_turn h L hs with ⟨f, ht⟩ | ⟨hun, hlist⟩
    · exact .turn ht
    · exact .unbooked hs.pool hun hlist
  | request hq => exact .request hq
  | drop dst =>
    obtain ⟨f, ht⟩ := bcast_turn h L (.dropDst dst) (by simp)
    exact .turn ht
  | destroy =>
    obtain ⟨f, ht⟩ := bcast_turn h L .shutdown (by simp)
    exact .turn ht

theorem request_listing (h : Listing d) (L : Ledger (view d) claim home)
    (hq : ctrlHandleRequest cnf ctrl d req env = some d')
    (hu : ∀ dst, req = .change dst → Unused d dst) : Listing d' := by
  have hdst := request_dst h hq
  have hdest := request_dests L hq
  obtain ⟨_, _, _, _, hl, _⟩ := request_frame hq
  have hbelow : ∀ b a, destOf d b = some a → b < d.nextBlock := by
    intro b a ha
    obtain ⟨c, hc, _⟩ := Option.bind_eq_some_iff.mp ha
    exact L.below hc
  -- the servers that are in use stay listed
  have hkeep : (addrs d'.router).Nodup ∧ d'.router.busyCount = d.router.busyCount ∧
      (∀ a, listenerDst d = some a → a ∈ addrs d'.router) ∧
      ∀ b a, destOf d b = some a → a ∈ addrs d'.router := by
    rcases request_router hq with hr | ⟨dst, hreq, _, hr⟩
    · rw [hr]
      exact ⟨h.nodup, rfl, h.held, h.listed⟩
    · rw [hr]
      refine ⟨?_, (change_counters cnf env d.router dst none).1, ?_⟩
      · by_cases hw : dst.weight < 0
        · exact (change_removes cnf h.nodup hw env none).1
        · exact (change_accounts cnf h.nodup (not_lt.mp hw) env none).1
      · by_cases hw : dst.weight < 0
        · obtain ⟨_, hstay⟩ := change_removes cnf h.nodup hw env none
          obtain ⟨hlst, hblk⟩ := hu dst hreq hw
          refine ⟨fun a ha => hstay a (h.held a ha) ?_, fun b a ha => hstay a (h.listed b a ha) ?_⟩
          · intro he
            exact hlst (he ▸ ha)
          · intro he
            exact hblk b (hbelow b a ha) (he ▸ ha)
        · obtain ⟨_, _, hpre⟩ := change_accounts cnf h.nodup (not_lt.mp hw) env none
          exact ⟨fun a ha => hpre.subset (h.held a ha), fun b a ha => hpre.subset (h.listed b a ha)⟩
  obtain ⟨hn, hbusy, hheld, hlist⟩ := hkeep
  refine ⟨hn, ?_, ?_, ?_, by rw [hbusy, hl]; exact h.busy⟩
  · intro b a ha
    exact hlist b a (hdest ▸ ha)
  · intro a ha
    exact hheld a (hdst ▸ ha)
  · rw [hdst, hl]
    exact h.aims

end requests

end Glb.Proofs.Turns
