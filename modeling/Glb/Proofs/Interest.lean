import Glb.Proofs.Blocks

namespace Glb.Proofs.Interest
open Function Lib.Run PoolFrame PoolEvents Ownership DaemonLedger Registry Blocks

variable {build : Build} {cnf : Cnf} {ctrl : Ctrl} {d d' : Daemon} {op : DaemonOp} {c c' : Conn}

/-- The end that takes what is read from a descriptor. -/
def readEnd (d : Daemon) (i : Nat) (fd : Fd) : Option ConnEnd := do
  let p ← d.pools[i]?
  let q ← p.routeMap fd
  (d.world p).deref q

/-- The pool is told when the end can be written to. -/
def Writable (e : ConnEnd) : Prop := e.events &&& poolFdWrite = poolFdWrite

instance (e : ConnEnd) : Decidable (Writable e) :=
  inferInstanceAs (Decidable (e.events &&& poolFdWrite = poolFdWrite))

/-- Every registered server end that is not connected yet waits for that. -/
def Awaited (d : Daemon) : Prop :=
  ∀ i fd e, readEnd d i fd = some e → e.kind = .incomplete → Writable e

/-- No `send ()` on a server end that is not known to be connected takes all it
is offered. -/
def SendsPart (d : Daemon) (op : DaemonOp) : Prop :=
  ∀ r ∈ dataRead op, ∀ e ∈ readEnd d r.pool r.fd, e.kind = .incomplete → r.avail ≠ [] → e.total < poolBufSize →
    r.send.ret < e.total + (received e r.avail).length - e.sent

instance : Decidable (SendsPart d op) := inferInstanceAs (Decidable (∀ r ∈ dataRead op, _))

theorem held_read_end (hp : d.pools[i]? = some p) (hh : Held (d.world p) b c) (s : Side) :
    readEnd d i (side c s.other).sock = some (side c s) := by
  have hr : p.routeMap (side c s.other).sock = some (ptr b s) := by
    have h := hh.route s.other
    rwa [other_other] at h
  simp [readEnd, hp, hr, deref_ptr hh.block]

section masks

theorem or_write (x : BitVec 32) : (x ||| poolFdWrite) &&& poolFdWrite = poolFdWrite := by
  ext i hi
  cases hx : poolFdWrite[i] <;> simp [hx]

theorem or_read_write {x : BitVec 32} (h : x &&& poolFdWrite = poolFdWrite) :
    (x ||| poolFdRead) &&& poolFdWrite = poolFdWrite := by
  have hr : poolFdRead &&& poolFdWrite = 0#32 := by decide
  rw [BitVec.and_or_distrib_right, h, hr, BitVec.or_zero]

theorem and_not_read_write {x : BitVec 32} (h : x &&& poolFdWrite = poolFdWrite) :
    (x &&& ~~~poolFdRead) &&& poolFdWrite = poolFdWrite := by
  have hr : ~~~poolFdRead &&& poolFdWrite = poolFdWrite := by decide
  rw [BitVec.and_assoc, hr, h]

end masks

/-- A server end that is not connected has no socket yet or is waited for. -/
def Watched (c : Conn) : Prop :=
  c.dst.kind = .incomplete → c.dst.sock < 0 ∨ Writable c.dst

/-- A `send ()` that leaves something asks to be told when it can go on. -/
theorem after_send_writable (e : ConnEnd) (out : SendOut) (h : Writable e)
    (hl : out.ret < e.total - e.sent) : Writable (afterSend e out) := by
  unfold afterSend ConnEnd.advance
  have hn : sendLen e out = out.ret := Nat.min_eq_left (Nat.le_of_lt hl)
  rw [hn]
  split
  · rw [if_neg (by omega)]
    exact or_write e.events
  · split
    · exact or_write e.events
    · exact h

theorem wake_writable (d e : ConnEnd) (h : Writable e) : Writable (wake d e) := by
  unfold wake
  split
  · exact or_read_write h
  · exact h

theorem registered_writable (hi : e.kind = .incomplete) : Writable (registered e) := by
  simp [Writable, registered, regEvents, hi]

theorem stall_inc_writable (c : Conn) (h : Writable c.dst) : Writable (stall c .inc).dst := by
  unfold stall
  split
  · exact and_not_read_write h
  · exact h

theorem sent_inc_dst (c : Conn) (out : SendOut) (resume : Bool) :
    (sentConn c .inc out resume).dst =
      if resume ∧ 0 < sendLen c.inc out then wake (afterSend c.inc out) c.dst else c.dst := by
  by_cases h : resume ∧ 0 < sendLen c.inc out
  · have hs : sentConn c .inc out resume = setSide (setSide c .inc (afterSend c.inc out)) .dst
        (wake (afterSend c.inc out) c.dst) := if_pos h
    rw [if_pos h, hs]
    rfl
  · have hs : sentConn c .inc out resume = setSide c .inc (afterSend c.inc out) := if_neg h
    rw [if_neg h, hs]
    rfl

/-- A connection keeps its socket and its kind through a read. -/
theorem watched_read (hp : d.pools[i]? = some p) (hh : Held (d.world p) b c) (hw : Watched c)
    (hb : received (side c s) avail = bytes) (h0 : 0 < bytes.length)
    (hok : SendsPart d (.read i (side c s.other).sock (.data avail) send)) :
    Watched (stall (sentConn (filled c s bytes) s send false) s) := by
  intro hi
  have hfix := read_fixed c s bytes send .dst
  have hkind : c.dst.kind = .incomplete := hfix.2.1.symm.trans hi
  have hsock : (stall (sentConn (filled c s bytes) s send false) s).dst.sock = c.dst.sock := hfix.1
  rcases hw hkind with hneg | hwr
  · exact Or.inl (hsock ▸ hneg)
  · refine Or.inr ?_
    cases s with
    | inc =>
      apply stall_inc_writable
      rw [sent_inc_dst]
      simpa [filled, setSide] using hwr
    | dst =>
      have hend := read_end c .dst bytes send
      simp only [side] at hend
      rw [hend]
      have hlen : 0 < min (poolBufSize - c.dst.total) avail.length := by
        rw [← hb, received, List.length_take] at h0
        exact h0
      have hav : avail ≠ [] := by
        intro he
        simp [he] at hlen
      have hroom : c.dst.total < poolBufSize := by omega
      have hlt := hok _ rfl c.dst (held_read_end hp hh .dst) hkind hav hroom
      have hbytes : received c.dst avail = bytes := hb
      rw [hbytes] at hlt
      exact after_send_writable _ send hwr hlt

theorem watched_touched (hp : d.pools[i]? = some p) (hw : Watched c) (hok : SendsPart d op)
    (ht : Touched (d.world p) i b op c c') : Watched c' := by
  cases ht with
  | read hh hk hb h0 => exact watched_read hp hh hw hb h0 hok
  | @settled _ s env send hk =>
    cases s with
    | inc => exact (settled_inc hk).symm ▸ hw
    | dst => exact fun hi => absurd hi (settled_complete c)
  | @written _ s env send hk h0 =>
    intro hi
    have hsent := sent_conn_fixed (settled c s) s send true .dst
    cases s with
    | inc =>
      rw [settled_inc hk] at hi hsent ⊢
      have hkind : c.dst.kind = .incomplete := hsent.2.1.symm.trans hi
      have hsock : (sentConn c .inc send true).dst.sock = c.dst.sock := hsent.1
      rcases hw hkind with hneg | hwr
      · exact Or.inl (hsock ▸ hneg)
      · rw [sent_inc_dst]
        split
        · exact Or.inr (wake_writable _ _ hwr)
        · exact Or.inr hwr
    | dst => exact absurd (hsent.2.1.symm.trans hi) (settled_complete c)
  | moved addr fd hpos hi => exact fun _ => Or.inr (registered_writable hi)
  | added hs =>
    intro hi
    exact Or.inr (registered_writable hi)

/-- All accounts in order, and every unconnected server end waited for. -/
def Attentive (d : Daemon) : Prop := Registered d ∧ ∀ b c, d.heap b = some c → Watched c

theorem attentive_step (hd : Attentive d) (hok : SendsPart d op)
    (h : daemonStep build cnf ctrl d op = some d') : Attentive d' := by
  obtain ⟨⟨claim, home, L⟩, hw⟩ := hd
  refine ⟨registered_step ⟨claim, home, L⟩ h, ?_⟩
  intro b c hc
  cases step_origin L h hc with
  | same h0 => exact hw b c h0
  | touched hp h0 ht => exact watched_touched hp (hw b _ h0) hok ht
  | @new inc addr sock dst complete hl _ hnew =>
    subst hnew
    intro hi
    cases complete with
    | true => simp [newConn] at hi
    | false => exact Or.inl (L.unconnected hl)

/-- In every run in which no `send ()` empties the buffer of an unconnected server
end, each of these ends is waited for in every state reached. -/
theorem connect_awaited (hn : pipes.Nodup) (hu : ∀ fd ∈ pipes, 0 < fd ∧ used fd = true)
    (ha : Along (daemonStep build cnf ctrl) SendsPart (Daemon.init pipes used router) ops)
    (h : exec (daemonStep build cnf ctrl) (Daemon.init pipes used router) ops = some d) :
    Awaited d := by
  have hinit : Attentive (Daemon.init pipes used router) :=
    ⟨registered_init hn hu router, by simp [Daemon.init]⟩
  obtain ⟨⟨claim, home, L⟩, hw⟩ := exec_keeps (fun _ _ _ => attentive_step) hinit ha h
  intro i fd e he hi
  simp only [readEnd, Option.bind_eq_bind, Option.bind_eq_some_iff] at he
  obtain ⟨p, hp, q, hq, he⟩ := he
  obtain ⟨b, c, s, hb, hh, hk, rfl⟩ := served (pool_ledger L hp) hq
  have hqs : q = ptr b s.other := Option.some.inj (hq.symm.trans (hh.route s))
  rw [hqs, deref_ptr hh.block, Option.some.injEq] at he
  subst he
  obtain ⟨hs, hkind⟩ := kind_incomplete hk hi
  rw [hs]
  rcases hw b c hh.block hkind with hneg | hwr
  · exact absurd ((view_world hp ▸ L).held hb hh.block).1 (Int.not_le.mpr hneg)
  · exact hwr

/-- A `send ()` that takes two of three bytes leaves the connect awaited. -/
theorem connect_awaited_part_sent :
    Awaited (reachedBy leastConns (threeBytes 2)) ∧
      ∃ e, readEnd (reachedBy leastConns (threeBytes 2)) 0 6 = some e ∧ e.kind = .incomplete := by
  refine ⟨connect_awaited (by simp) (by decide) ?_
    (reached_by leastConns (threeBytes 2) (by decide +kernel)), ?_⟩
  · decide +kernel
  · have hk : (readEnd (reachedBy leastConns (threeBytes 2)) 0 6).map ConnEnd.kind =
        some .incomplete := by decide +kernel
    exact Option.map_eq_some_iff.mp hk

/-- The server is reached between the poll and the `send ()`, which takes all
three bytes. The pool has then stopped to wait for the connect to complete. -/
theorem connect_unawaited_all_sent :
    exec (daemonStep .epoll leastConns noWdog) oneDaemon (threeBytes 3) =
      some (reachedBy leastConns (threeBytes 3)) ∧
    ¬ Awaited (reachedBy leastConns (threeBytes 3)) := by
  refine ⟨reached_by leastConns (threeBytes 3) (by decide +kernel), ?_⟩
  intro ha
  have hk : (readEnd (reachedBy leastConns (threeBytes 3)) 0 6).any (fun e =>
      e.kind = .incomplete ∧ ¬ Writable e) = true := by decide +kernel
  cases he : readEnd (reachedBy leastConns (threeBytes 3)) 0 6 with
  | none =>
    rw [he] at hk
    cases hk
  | some e =>
    simp only [he, Option.any_some, decide_eq_true_eq] at hk
    exact hk.2 (ha 0 6 e he hk.1)

end Glb.Proofs.Interest
