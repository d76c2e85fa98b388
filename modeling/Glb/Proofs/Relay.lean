import Glb.Lib.Relay
import Glb.Proofs.Stalls

namespace Glb.Proofs.Relay
open Function Lib.Window Lib.Run Lib.Relay PoolFrame PoolEvents DaemonSteps Ownership DaemonLedger Registry
open Blocks FdSteps Descriptors Serving Glb.Proofs.Stream Stalls RouterRun

variable {build : Build} {cnf : Cnf} {ctrl : Ctrl} {d d' : Daemon} {w w' u : World} {v : View}
variable {claim : Owner → Option Fd} {home : Nat → Option Home} {op : DaemonOp}
variable {i b b0 : Nat} {c c' c0 c1 : Conn} {s : Side} {log l : List Ev}
variable {σ τ : Sessions Nat Side UInt8} {X : Nat → Conn → Prop}

section contents

/-- What a connection holds, by the end that is to send it. -/
def queues (c : Conn) (s : Side) : List UInt8 := (side c s).pending

theorem queues_same (h : ∀ s, SameBytes (side c s) (side c' s)) : queues c' = queues c := by
  funext s
  obtain ⟨h1, h2, h3⟩ := h s
  simp only [queues, ConnEnd.pending, h1, h2, h3]

/-- The contents of two connections that differ in one end. -/
theorem queues_update (ho : SameBytes (side c s.other) (side c' s.other)) :
    update (queues c) s (side c' s).pending = queues c' := by
  funext t
  by_cases ht : t = s
  · rw [ht, update_self]
    rfl
  · have hto : t = s.other := by cases s <;> cases t <;> simp_all [Side.other]
    obtain ⟨h1, h2, h3⟩ := ho
    rw [update_of_ne ht, hto]
    simp only [queues, ConnEnd.pending, h1, h2, h3]

theorem pending_fill (f : Flow log (ptr b s) (side c s)) (bytes : List UInt8) :
    (side (filled c s bytes) s).pending = queues c s ++ bytes := by
  rw [filled, side_set]
  exact window_fill _ _ _ bytes f.sent_le f.filled

theorem queues_filled (f : Flow log (ptr b s) (side c s)) (bytes : List UInt8) :
    update (queues c) s (queues c s ++ bytes) = queues (filled c s bytes) := by
  rw [← pending_fill f bytes]
  refine queues_update ?_
  rw [filled, side_set_other]
  exact ⟨rfl, rfl, rfl⟩

/-- What `send ()` takes of what the end holds. -/
def sentBytes (c : Conn) (s : Side) (out : SendOut) : List UInt8 :=
  (side c s).pending.take (sendLen (side c s) out)

theorem queues_sent (f : Flow log (ptr b s) (side c s)) (out : SendOut) :
    queues c s = sentBytes c s out ++ (afterSend (side c s) out).pending := by
  have hsent := (f.send out 0 0).conserved
  rw [accepted_append, arrived_append, ← f.conserved, List.append_assoc, List.append_assoc] at hsent
  simpa [accepted, arrived, Ev.accepted, Ev.arrived, queues, sentBytes] using (List.append_cancel_left hsent).symm

theorem pending_length (f : Flow log (ptr b s) (side c s)) : (queues c s).length ≤ (side c s).total := by
  have hlen : (queues c s).length = (side c s).total - (side c s).sent := window_length _ _ _ f.filled
  omega

end contents

section calls

/-- The end that a pointer leads to. -/
def sideOf (p : EndPtr) : Side := if p.off = 0 then .inc else .dst

theorem side_of_ptr (b : Nat) (s : Side) : sideOf (ptr b s) = s := by
  cases s <;> rfl

/-- A call of `recv ()` or `send ()`, as a relay sees it. -/
def relayCall : Ev → Option (Act Nat Side UInt8)
  | .recv p _ _ _ bytes => some (.take p.block (sideOf p) bytes)
  | .send p _ _ bytes => some (.give p.block (sideOf p) bytes)
  | _ => none

/-- All calls so far. -/
def calls (log : List Ev) : List (Act Nat Side UInt8) := log.filterMap relayCall

theorem calls_append (log l : List Ev) : calls (log ++ l) = calls log ++ calls l := List.filterMap_append

theorem calls_recv (b : Nat) (c : Conn) (s : Side) (bytes : List UInt8) :
    calls [recvEv b c s bytes] = [.take b s bytes] := by
  simp [calls, relayCall, recvEv, side_of_ptr]

theorem calls_send (b : Nat) (c : Conn) (s : Side) (out : SendOut) :
    calls [sendEv b c s out] = [.give b s (sentBytes c s out)] := by
  simp [calls, relayCall, sendEv, side_of_ptr, sentBytes]

theorem calls_silent (h : Silent l) : calls l = [] := by
  rw [calls, List.filterMap_eq_nil_iff]
  intro ev hm
  rcases h ev hm with ⟨fd, rfl⟩ | ⟨b, rfl⟩ <;> rfl

end calls

section worlds

/-- The sessions are the connections of one pool together with those of the others. -/
def Around (X : Nat → Conn → Prop) (w : World) (σ : Sessions Nat Side UInt8) : Prop :=
  ∀ b q, σ b = some q ↔ ∃ c, (Held w b c ∨ X b c) ∧ q = queues c

/-- What a pool did is what a relay may do, call by call. -/
def Matched (X : Nat → Conn → Prop) (w u : World) (σ : Sessions Nat Side UInt8) : Prop :=
  ∃ acts τ, exec (relayStep poolBufSize) σ acts = some τ ∧ Around X u τ ∧
    calls u.log = calls w.log ++ acts.filterMap Act.moves

theorem Around.same (h : Around X w σ) (hu : ∀ {b c}, Held u b c ↔ Held w b c) : Around X u σ := by
  intro b q
  rw [h b q]
  simp only [hu]

theorem Around.session (h : Around X w σ) (hh : Held w b c) : σ b = some (queues c) :=
  (h b _).mpr ⟨c, Or.inl hh, rfl⟩

theorem Around.vacant (h : Around X w σ) (hw : ∀ c, ¬ Held w b c) (hX : ∀ c, ¬ X b c) : σ b = none := by
  rw [Option.eq_none_iff_forall_ne_some]
  intro q hq
  obtain ⟨c, hc, _⟩ := (h b q).mp hq
  exact hc.elim (hw c) (hX c)

/-- One session has changed. -/
theorem Around.put (h : Around X w σ) (hX : ∀ c, ¬ X b0 c)
    (hu : ∀ {b c}, Held u b c ↔ (b = b0 ∧ c = c1) ∨ (b ≠ b0 ∧ Held w b c)) :
    Around X u (update σ b0 (some (queues c1))) := by
  intro b q
  by_cases hb : b = b0
  · subst hb
    rw [update_self]
    constructor
    · intro hq
      exact ⟨c1, Or.inl (hu.mpr (Or.inl ⟨rfl, rfl⟩)), (Option.some.inj hq).symm⟩
    · rintro ⟨c, hc | hc, rfl⟩
      · rcases hu.mp hc with ⟨_, rfl⟩ | ⟨hne, _⟩
        · rfl
        · exact absurd rfl hne
      · exact absurd hc (hX c)
  · rw [update_of_ne hb, h b q]
    simp only [hu, hb, false_and, not_false_eq_true, true_and, false_or, ne_eq]

/-- One session has ended. -/
theorem Around.drop (h : Around X w σ) (hX : ∀ c, ¬ X b0 c)
    (hu : ∀ {b c}, Held u b c ↔ b ≠ b0 ∧ Held w b c) : Around X u (update σ b0 none) := by
  intro b q
  by_cases hb : b = b0
  · subst hb
    rw [update_self]
    constructor
    · intro hq
      cases hq
    · rintro ⟨c, hc | hc, _⟩
      · exact absurd rfl (hu.mp hc).1
      · exact absurd hc (hX c)
  · rw [update_of_ne hb, h b q]
    simp only [hu, hb, ne_eq, not_false_eq_true, true_and]

/-- A pool that did what a relay may do then ends one of its sessions. -/
theorem Matched.ends (h : Matched X w w' σ) (hh : Held w' b0 c0) (hX : ∀ c, ¬ X b0 c)
    (hu : ∀ {b c}, Held u b c ↔ b ≠ b0 ∧ Held w' b c) (hl : calls u.log = calls w'.log) : Matched X w u σ := by
  obtain ⟨acts, τ, hrun, hτ, hcalls⟩ := h
  refine ⟨acts ++ [.leave b0], update τ b0 none, ?_, hτ.drop hX hu, ?_⟩
  · rw [exec_append, hrun]
    exact exec_one (relay_leave (hτ.session hh))
  · rw [hl, hcalls, List.filterMap_append]
    simp [Act.moves]

theorem ended_calls (cnf : Cnf) (w : World) (b : Nat) (c : Conn) (notify : Bool) :
    calls (gone cnf w b c notify).log = calls w.log := by
  rw [gone_log, calls_append, calls_silent (l := [_, _, _]) (by simp [Silent]), List.append_nil]

theorem detached_calls (w : World) (c : Conn) : calls (detached w c).log = calls w.log := by
  rw [detached_log, calls_append, calls_silent (l := [_]) (by simp [Silent]), List.append_nil]

/-- The calls of a read that returned bytes. -/
theorem calls_passed (w : World) (b : Nat) (c : Conn) (s : Side) (bytes : List UInt8) (send : SendOut) :
    calls (logs w [recvEv b c s bytes, sendEv b (filled c s bytes) s send]).log = calls w.log ++
      [.take b s bytes, .give b s (sentBytes (filled c s bytes) s send)] := by
  rw [logs, calls_append, ← List.singleton_append, calls_append, calls_recv, calls_send]
  rfl

theorem read_matched (h : Around X w σ) (hX : ∀ c, ¬ X b c) (hw : Flows w next) (hh : Held w b c)
    (hf : ReadFate cnf w b c s recv send u) : Matched X w u σ := by
  have hflow := hw.ends hh.block s
  have hlen := pending_length hflow
  have hq := h.session hh
  have hnil : (side c s).total < poolBufSize → relayStep poolBufSize σ (.take b s []) = some σ := by
    intro hlt
    rw [relay_take hq (by simp only [List.length_nil]; omega), List.append_nil, update_eq_self, ← hq,
      update_eq_self]
  have htake : ∀ bytes : List UInt8, (side c s).total + bytes.length ≤ poolBufSize →
      relayStep poolBufSize σ (.take b s bytes) = some (update σ b (some (queues (filled c s bytes)))) := by
    intro bytes hroom
    rw [relay_take hq (by omega), queues_filled hflow]
  -- what `send ()` accepts of the bytes read, and what stays
  have hgive : ∀ bytes : List UInt8, 0 < bytes.length → (side c s).total + bytes.length ≤ poolBufSize →
      relayStep poolBufSize (update σ b (some (queues (filled c s bytes))))
        (.give b s (sentBytes (filled c s bytes) s send)) =
      some (update σ b (some (queues (stall (sentConn (filled c s bytes) s send false) s)))) := by
    intro bytes h0 hroom
    have hfilled := flow_filled hw hh.block s h0 hroom
    rw [relay_give (update_self _ _ _) (queues_sent hfilled send), update_idem,
      ← sent_conn_end _ s send false, ← stall_end (sentConn _ _ _ _)]
    have hother : SameBytes (side (filled c s bytes) s.other)
        (side (stall (sentConn (filled c s bytes) s send false) s) s.other) :=
      same_trans (sent_conn_other _ s send false) (same_stall _ s s.other)
    rw [queues_update hother]
  have hempty : (side c s).total < poolBufSize → Matched X w (logs w [recvEv b c s []]) σ := by
    intro hlt
    refine ⟨[.take b s []], σ, exec_one (hnil hlt), h.same (held_logs_iff w _), ?_⟩
    rw [logs, calls_append, calls_recv]
    rfl
  cases hf with
  | full _ => exact ⟨[], σ, rfl, h, by simp⟩
  | nothing hlt => exact hempty hlt
  | closed hlt _ =>
    exact (hempty hlt).ends (held_logs hh _) hX (held_gone_iff cnf (held_logs hh _) true) (ended_calls _ _ _ _ _)
  | detach hlt _ _ =>
    exact (hempty hlt).ends (held_logs hh _) hX (held_detached_iff (held_logs hh _)) (detached_calls _ _)
  | passed avail bytes _ _ h0 hroom _ =>
    refine ⟨[.take b s bytes, .give b s (sentBytes (filled c s bytes) s send)],
      update σ b (some (queues (stall (sentConn (filled c s bytes) s send false) s))), ?_,
      h.put hX fun {b' c'} => ?_, calls_passed w b c s bytes send⟩
    · rw [exec_cons, htake bytes hroom]
      exact exec_one (hgive bytes h0 hroom)
    · rw [held_put_iff (held_logs hh _) fun t => (read_fixed c s bytes send t).1, held_logs_iff]
  | broken bytes h0 hroom _ _ =>
    refine ⟨[.take b s bytes, .give b s (sentBytes (filled c s bytes) s send), .leave b], update σ b none, ?_,
      h.drop hX fun {b' c'} => ?_, ?_⟩
    · rw [exec_cons, htake bytes hroom, Option.bind_some, exec_cons, hgive bytes h0 hroom]
      refine exec_one ((relay_leave (update_self _ _ _)).trans ?_)
      rw [update_idem]
    · rw [held_ended_iff cnf (held_logs hh _) (filled_socks c s bytes), held_logs_iff]
    · rw [ended_calls]
      exact calls_passed w b c s bytes send

theorem calls_give (w : World) (b : Nat) (c : Conn) (s : Side) (out : SendOut) :
    calls (logs w [sendEv b c s out]).log = calls w.log ++ [.give b s (sentBytes c s out)] := by
  rw [logs, calls_append, calls_send]

theorem write_matched (L : Ledger (seen v i w) claim home) (h : Around X w σ) (hX : ∀ c, ¬ X b c)
    (hw : Flows w next) (hh : Held w b c) (hf : WriteFate cnf w b c s env send u) : Matched X w u σ := by
  have hset : Flow w.log (ptr b s) (side (settled c s) s) := (hw.ends hh.block s).same (same_bytes_settled c s s)
  have hqueues : queues (settled c s) = queues c := queues_same (same_bytes_settled c s)
  have hq := h.session hh
  have hgive : relayStep poolBufSize σ (.give b s (sentBytes (settled c s) s send)) =
      some (update σ b (some (queues (sentConn (settled c s) s send true)))) := by
    rw [relay_give hq (hqueues ▸ queues_sent hset send), ← hqueues, ← sent_conn_end _ s send true,
      queues_update (sent_conn_other _ s send true)]
  have hr : Held (rerouted cnf w c env) b c := ⟨hh.block, hh.route⟩
  have hstill : Matched X w (rerouted cnf w c env) σ :=
    ⟨[], σ, rfl, h.same (held_frame rfl rfl), (List.append_nil _).symm⟩
  cases hf with
  | drained h0 =>
    have hput := h.put hX fun {b' c'} => held_put_iff (b := b') (c := c') hh (settled_socks c s)
    rw [hqueues, ← hq, update_eq_self] at hput
    exact ⟨[], σ, rfl, hput, by simp [putConn]⟩
  | passed h0 hs =>
    refine ⟨[.give b s (sentBytes (settled c s) s send)], _, exec_one hgive, h.put hX fun {b' c'} => ?_, calls_give w b _ s send⟩
    rw [held_put_iff (held_logs hh _), held_logs_iff]
    intro t
    rw [(sent_conn_fixed _ s send true t).1, settled_socks]
  | broken h0 =>
    refine ⟨[.give b s (sentBytes (settled c s) s send), .leave b], update σ b none, ?_, h.drop hX fun {b' c'} => ?_, ?_⟩
    · rw [exec_cons, hgive]
      refine exec_one ((relay_leave (update_self _ _ _)).trans ?_)
      rw [update_idem]
    · rw [held_ended_iff cnf (held_logs hh _) (settled_socks c s), held_logs_iff]
    · rw [ended_calls]
      exact calls_give w b _ s send
  | refused _ _ _ =>
    exact hstill.ends hr hX (held_ended_iff cnf hr (by intro t; cases t <;> rfl) false) (ended_calls _ _ _ _ _)
  | moved addr fd _ _ _ _ ho =>
    have hput := h.put hX fun {b' c'} => held_moved_iff (b := b') (c := c') L hh env addr ho
    have hsame : queues (registeredConn (onSock (retarget c addr) fd)) = queues c :=
      queues_same fun t => by cases t <;> exact ⟨rfl, rfl, rfl⟩
    rw [hsame, ← hq, update_eq_self] at hput
    refine ⟨[], σ, rfl, hput, ?_⟩
    exact (detached_calls (rerouted cnf w c env) c).trans (List.append_nil _).symm
  | abandoned addr l _ _ _ hl =>
    obtain ⟨hled, _, _⟩ := detached_unled (w := rerouted cnf w c env) L hr
    refine hstill.ends hr hX ((held_lost_iff hled).trans (held_detached_iff hr)) ?_
    have hlost : (lost cnf (detached (rerouted cnf w c env) c) b (retarget c addr) env.addNow l).log =
      (detached (rerouted cnf w c env) c).log ++ l := rfl
    rw [hlost, calls_append, detached_calls, calls_silent hl, List.append_nil]

/-- A scan ends sessions, and moves nothing. -/
theorem removals_matched (h : Around X w σ) (hX : ∀ {b c}, Held w b c → ∀ c', ¬ X b c')
    (hr : Removals cnf w u) : Matched X w u σ := by
  have hkeep : (∀ {b c}, Held u b c → ∀ c', ¬ X b c') ∧ Matched X w u σ := by
    refine removals_keep (fun u => (∀ {b c}, Held u b c → ∀ c', ¬ X b c') ∧ Matched X w u σ) hr ?_ ?_ ?_
      ⟨hX, [], σ, rfl, h, by simp⟩
    · rintro v v' hb ⟨hXv, acts, τ, hrun, hτ, hcalls⟩
      have hlog : v'.log = v.log := congrArg (fun w => w.log) hb
      exact ⟨fun hh => hXv ((held_bare_iff hb).mp hh), acts, τ, hrun, hτ.same (held_bare_iff hb), hlog ▸ hcalls⟩
    · rintro v b c hh _ ⟨hXv, hm⟩
      refine ⟨fun hh' => hXv ((held_gone_iff cnf hh false).mp hh').2, ?_⟩
      exact hm.ends hh (hXv hh) (held_gone_iff cnf hh false) (ended_calls _ _ _ _ _)
    · rintro v b c hh _ _ ⟨hXv, hm⟩
      refine ⟨fun hh' => hXv ((held_detached_iff hh).mp hh').2, ?_⟩
      exact hm.ends hh (hXv hh) (held_detached_iff hh) (detached_calls _ _)
  exact hkeep.2

theorem scanned_matched (h : Around X w σ) (hX : ∀ {b c}, Held w b c → ∀ c', ¬ X b c')
    (hb : bare w1 = bare (popped w q)) (hr : Removals cnf w1 u) : Matched X w u σ := by
  have hpop : ∀ {b c}, Held w1 b c ↔ Held w b c := fun {b c} => (held_bare_iff hb).trans popped_held
  have hlog : w1.log = w.log := congrArg (fun w => w.log) hb
  have hmatch := removals_matched (h.same hpop) (fun hh => hX (hpop.mp hh)) hr
  rwa [Matched, hlog] at hmatch

theorem empty_queues (h : c.inc.total = 0 ∧ c.dst.total = 0) : (fun _ => []) = queues c := by
  funext s
  cases s with
  | inc => simp [queues, side, ConnEnd.pending, window, h.1]
  | dst => simp [queues, side, ConnEnd.pending, window, h.2]

/-- Every step of a pool thread is a run of the relay. -/
theorem fate_matched (L : Ledger (seen v i w) claim home) (hs : w.shutdown = false) (hw : Flows w next)
    (hi : ∀ {b c}, b ∈ adds w.pipe → w.heap b = some c → c.inc.total = 0 ∧ c.dst.total = 0)
    (h : Around X w σ) (hX : ∀ {b c}, Held w b c → ∀ c', ¬ X b c')
    (hXq : ∀ b ∈ adds w.pipe, ∀ c, ¬ X b c) (hf : Fate cnf i w op u) : Matched X w u σ := by
  cases hf with
  | read hh hk hf => exact read_matched h (hX hh) hw hh hf
  | write hh hk hf => exact write_matched L h (hX hh) hw hh hf
  | @lost b c q l env hp hc hd hl =>
    obtain ⟨_, S⟩ := ledger_spare L hs hp
    refine ⟨[], σ, rfl, h.same ((held_lost_iff (w := popped w q) S.unled).trans popped_held), ?_⟩
    have hlost : (lost cnf (popped w q) b c env.now l).log = w.log ++ l := rfl
    rw [hlost, calls_append, calls_silent hl]
    rfl
  | @added b c q w1 c1 env hp hc hsock =>
    obtain ⟨c', S⟩ := ledger_spare L hs hp
    have hcc : c' = c := Option.some.inj (S.block.symm.trans hc)
    subst hcc
    have hmem : b ∈ adds w.pipe := by simp [hp, adds]
    have hnone : σ b = none := by
      refine h.vacant (fun c'' hh => ?_) (hXq b hmem)
      exact unled_not_held S.unled hh rfl
    have hempty : (fun _ => []) = queues (registeredConn c1) := by
      rw [empty_queues (hi hmem hc)]
      refine (queues_same fun t => ?_).symm
      rcases hsock with ⟨_, _, rfl⟩ | ⟨_, fd, _, _, _, rfl⟩ <;> cases t <;> exact ⟨rfl, rfl, rfl⟩
    refine ⟨[.join b], update σ b (some fun _ => []), exec_one (relay_join hnone), ?_, ?_⟩
    · rw [hempty]
      refine h.put (hXq b hmem) fun {b' c''} => (held_joined_iff S hsock).trans (or_congr_right ?_)
      exact ⟨fun hh => ⟨unled_not_held S.unled hh, hh⟩, fun hh => hh.2⟩
    · have hlog : (attached w1 b c1).log = w.log := by
        rcases hsock with ⟨_, rfl, _⟩ | ⟨_, fd, _, _, rfl, _⟩ <;> rfl
      rw [hlog]
      exact (List.append_nil _).symm
  | stats env hp => exact ⟨[], σ, rfl, h.same popped_held, by simp [popped]⟩
  | @dropped a q w1 u env hp hb hr => exact scanned_matched h hX hb hr
  | @shutdown q w1 u env hp hb hr =>
    obtain ⟨acts, τ, hrun, hτ, hcalls⟩ := scanned_matched h hX hb hr
    refine ⟨acts, τ, hrun, hτ.same (held_frame rfl rfl), ?_⟩
    have hlog : (ended u).log = u.log ++ [.close u.ctlRecv] := rfl
    rw [hlog, calls_append, hcalls, calls_silent (silent_close _), List.append_nil]

end worlds

section daemon

/-- The sessions of the relay are the connections that the pools serve. -/
def Depicts (d : Daemon) (σ : Sessions Nat Side UInt8) : Prop :=
  ∀ b q, σ b = some q ↔ ∃ c, Serves d b c ∧ q = queues c

/-- The connections of all pools but one. -/
def elsewhereServed (d : Daemon) (i : Nat) (b : Nat) (c : Conn) : Prop :=
  ∃ (j : Nat) (p : Pool), j ≠ i ∧ d.pools[j]? = some p ∧ Held (d.world p) b c

theorem serves_split (hp : d.pools[i]? = some p) :
    Serves d b c ↔ Held (d.world p) b c ∨ elsewhereServed d i b c := by
  constructor
  · rintro ⟨j, p', hp', hh⟩
    by_cases hij : j = i
    · subst hij
      rw [hp] at hp'
      exact Or.inl (Option.some.inj hp' ▸ hh)
    · exact Or.inr ⟨j, p', hij, hp', hh⟩
  · rintro (hh | ⟨j, p', _, hp', hh⟩)
    · exact ⟨i, p, hp, hh⟩
    · exact ⟨j, p', hp', hh⟩

/-- What the relay needs of the daemon. -/
structure Relaying (d : Daemon) : Prop where
  flowing : Flowing d
  idle : Idle (view d)

theorem depicts_untouched (L : Ledger (view d) claim home) (h : Depicts d σ) (hu : Untouched d d')
    (hlen : d'.pools.length = d.pools.length) : Depicts d' σ := by
  -- each pool has the connections it had
  have hheld : ∀ {p pipe b c}, (∃ i : Nat, d.pools[i]? = some p) →
      (Held (d'.world { p with pipe := pipe }) b c ↔ Held (d.world p) b c) := by
    rintro p pipe b c ⟨i, hp⟩
    exact held_same rfl (hu.routed L hp)
  have hserves : ∀ {b c}, Serves d' b c ↔ Serves d b c := by
    intro b c
    constructor
    · rintro ⟨i, p', hp', hh⟩
      obtain ⟨p, pipe, hp, rfl⟩ := hu.pools hp'
      exact ⟨i, p, hp, (hheld ⟨i, hp⟩).mp hh⟩
    · rintro ⟨i, p, hp, hh⟩
      have hi : i < d'.pools.length := hlen.symm ▸ (List.getElem?_eq_some_iff.mp hp).1
      obtain ⟨p2, pipe, hp2, hp'⟩ := hu.pools (List.getElem?_eq_getElem hi)
      have hpp : p2 = p := Option.some.inj (hp2.symm.trans hp)
      subst hpp
      exact ⟨i, _, (List.getElem?_eq_getElem hi).trans (congrArg some hp'), (hheld ⟨i, hp⟩).mpr hh⟩
  intro b q
  rw [h b q]
  simp only [hserves]

/-- The threads other than the pools' make no call that the relay sees. -/
theorem step_relays (hs : Step cnf ctrl d op d') :
    calls d'.log = calls d.log ∨ ∃ i p u w', PoolStep cnf d op d' i p u w' := by
  have hquiet : ∀ {l}, Silent l → calls (d.log ++ l) = calls d.log := by
    intro l hl
    rw [calls_append, calls_silent hl, List.append_nil]
  have hclose : ∀ {log fd}, calls log = calls d.log → calls (log ++ [.close fd]) = calls d.log := by
    intro log fd h
    rw [calls_append, h, calls_silent (silent_close fd), List.append_nil]
  cases hs with
  | accept _ _ _ h =>
    left
    cases h with
    | turned l hl => exact hquiet hl
    | none r l hl _ => exact hquiet hl
    | noneSync r l hl _ => exact hquiet hl
    | chosen r dst _ => rfl
    | connecting r i sock _ _ _ => rfl
  | connected _ h =>
    left
    cases h with
    | retry r j _ => rfl
    | failed r _ => exact hclose (hclose rfl)
    | done dst _ => rfl
    | pending dst _ => exact hclose rfl
  | addConn _ h =>
    left
    cases h with
    | noMemory => exact hclose (hclose rfl)
    | unsent => exact hclose (hclose rfl)
    | queued => rfl
  | pool h => exact Or.inr ⟨_, _, _, _, h⟩
  | request h =>
    obtain ⟨_, _, _, hl, _⟩ := request_frame h
    exact Or.inl (by rw [hl])
  | drop dst => exact Or.inl rfl
  | destroy => exact Or.inl rfl

/-- The connections that the other pools serve are not this pool's business. -/
theorem elsewhere_apart (L : Ledger (view d) claim home) (hp : d.pools[i]? = some p) (h : elsewhereServed d i b c) :
    (∀ c', ¬ Held (d.world p) b c') ∧ b ∉ adds p.pipe := by
  obtain ⟨j, p', hij, hp', hh⟩ := h
  obtain ⟨hled, hpipe⟩ := pools_apart L hp hp' hij (hh.route .inc)
  rw [ptr_block] at hled hpipe
  exact ⟨fun c' hh' => hled (hh'.route .inc) (ptr_block _ _), hpipe⟩

theorem elsewhere_kept (L : Ledger (view d) claim home) (hs : PoolStep cnf d op d' i p u w') {j : Nat} (hij : j ≠ i)
    (hp' : d.pools[j]? = some p') : Held (d'.world p') b c ↔ Held (d.world p') b c := by
  refine held_same rfl fun {fd q} hq => ?_
  have hheap := apart_heap L hs.pool hp' hij hq hs.fate hs.bare
  rw [hs.put]
  exact hheap

theorem view_queue (hp : d.pools[i]? = some p) (hb : b ∈ adds p.pipe) : b ∈ (view d).queue i := by
  rw [← view_world hp]
  simp only [seen, update_self]
  exact hb

/-- A step of one pool, seen by the relay. -/
theorem pool_simulated (hd : Relaying d) (L : Ledger (view d) claim home) (h : Depicts d σ)
    (hs : PoolStep cnf d op d' i p u w') :
    ∃ acts τ, exec (relayStep poolBufSize) σ acts = some τ ∧ Depicts d' τ ∧
      calls d'.log = calls d.log ++ acts.filterMap Act.moves := by
  have L' : Ledger (seen (view d) i (d.world p)) claim home := (view_world hs.pool).symm ▸ L
  have haround : Around (elsewhereServed d i) (d.world p) σ := by
    intro b q
    rw [h b q]
    simp only [serves_split hs.pool]
  obtain ⟨acts, τ, hrun, hτ, hcalls⟩ := fate_matched L' hs.running hd.flowing.2
    (fun hb hc => hd.idle (view_queue hs.pool hb) hc) haround
    (fun hh c' hx => (elsewhere_apart L hs.pool hx).1 _ hh)
    (fun b hb c hx => (elsewhere_apart L hs.pool hx).2 hb) hs.fate
  refine ⟨acts, τ, hrun, fun b q => ?_, ?_⟩
  · have hput : d'.pools[i]? = some w'.toPool := by
      have hi : i < d.pools.length := (List.getElem?_eq_some_iff.mp hs.pool).1
      rw [hs.put]
      simp [Daemon.put, hi]
    have hother : ∀ {j : Nat}, j ≠ i → d'.pools[j]? = d.pools[j]? := by
      intro j hij
      rw [hs.put]
      exact List.getElem?_set_ne (Ne.symm hij)
    have hself : ∀ {c}, Held (d'.world w'.toPool) b c ↔ Held u b c := by
      intro c
      rw [← held_bare_iff hs.bare, hs.put]
      exact held_same rfl fun _ => rfl
    have helse : ∀ {c}, elsewhereServed d' i b c ↔ elsewhereServed d i b c := by
      intro c
      constructor
      · rintro ⟨j, p', hij, hp', hh⟩
        have hp0 := (hother hij).symm.trans hp'
        exact ⟨j, p', hij, hp0, (elsewhere_kept L hs hij hp0).mp hh⟩
      · rintro ⟨j, p', hij, hp', hh⟩
        exact ⟨j, p', hij, (hother hij).trans hp', (elsewhere_kept L hs hij hp').mpr hh⟩
    rw [hτ b q]
    simp only [serves_split hput, hself, helse]
  · have hlog : d'.log = u.log := by
      rw [hs.put]
      exact congrArg (fun w => w.log) hs.bare
    rw [hlog]
    exact hcalls

theorem relay_simulates (hd : Relaying d) (h : Depicts d σ) (hs : daemonStep build cnf ctrl d op = some d') :
    Relaying d' ∧ ∃ acts τ, exec (relayStep poolBufSize) σ acts = some τ ∧ Depicts d' τ ∧
      calls d'.log = calls d.log ++ acts.filterMap Act.moves := by
  obtain ⟨claim, home, L⟩ := hd.flowing.1
  have hstep := step_cases L hs
  refine ⟨⟨flowing_step hd.flowing hs, idle_step L hd.idle hstep⟩, ?_⟩
  rcases step_relays hstep with hcalls | ⟨i, p, u, w', hp⟩
  · rcases step_untouched hstep with hu | ⟨i, p, u, w', hp⟩
    · exact ⟨[], σ, rfl, depicts_untouched L h hu (step_pools hstep), by simp [hcalls]⟩
    · exact pool_simulated hd L h hp
  · exact pool_simulated hd L h hp

theorem relaying_init (hn : pipes.Nodup) (hu : ∀ fd ∈ pipes, 0 < fd ∧ used fd = true) (router : Router) :
    Relaying (Daemon.init pipes used router) ∧ Depicts (Daemon.init pipes used router) fun _ => none := by
  refine ⟨⟨⟨registered_init hn hu router, by simp [Daemon.init], by simp [Daemon.init], by simp [Daemon.init]⟩,
    ?_⟩, ?_⟩
  · intro i b c _ hc
    cases hc
  · intro b q
    constructor
    · intro hq
      cases hq
    · rintro ⟨c, ⟨_, _, _, hh⟩, _⟩
      cases hh.block

/-- The daemon is a relay. Whatever its threads do and in whatever order, there is a run of the
relay with one bounded queue for each direction of each session, which begins with no
session, makes exactly the calls of `recv ()` and `send ()` that the daemon made and in
their order, and ends with the connections that the pools serve as its sessions and the
bytes in their buffers as its queues. -/
theorem daemon_refines_relay (hn : pipes.Nodup) (hu : ∀ fd ∈ pipes, 0 < fd ∧ used fd = true)
    (h : exec (daemonStep build cnf ctrl) (Daemon.init pipes used router) ops = some d) :
    ∃ acts σ, exec (relayStep poolBufSize) (fun _ => none) acts = some σ ∧ Depicts d σ ∧
      calls d.log = acts.filterMap Act.moves := by
  obtain ⟨hinit, hdepicts⟩ := relaying_init hn hu router
  obtain ⟨acts, σ, hrun, hσ, hcalls⟩ := exec_simulates (fun d : Daemon => calls d.log)
    (fun _ _ _ _ hd hσ hs => relay_simulates hd hσ hs) hinit hdepicts h
  exact ⟨acts, σ, hrun, hσ, hcalls⟩

/-- Three bytes from a client, of which the server takes two. -/
theorem daemon_refines_relay_three_bytes :
    ∃ acts σ, exec (relayStep poolBufSize) (fun _ => none) acts = some σ ∧
      Depicts (reachedBy leastConns (threeBytes 2)) σ ∧
      acts.filterMap Act.moves = [.take 0 .dst [1, 2, 3], .give 0 .dst [1, 2]] := by
  obtain ⟨acts, σ, hrun, hσ, hcalls⟩ := daemon_refines_relay (by simp) (by decide)
    (reached_by leastConns (threeBytes 2) (by decide +kernel))
  refine ⟨acts, σ, hrun, hσ, hcalls.symm.trans ?_⟩
  decide +kernel

end daemon

end Glb.Proofs.Relay
