import Glb.Lib.Run
import Glb.Proofs.Registry

namespace Glb.Proofs.Stream
open Function Lib.Window Lib.Run PoolFrame PoolEvents DaemonSteps Ownership DaemonLedger Registry

variable {build : Build} {cnf : Cnf} {ctrl : Ctrl} {d d' : Daemon} {w w' : World}
variable {heap heap' : Nat → Option Conn} {log l : List Ev} {next b : Nat} {c c' : Conn}
variable {p : EndPtr} {e e' : ConnEnd}

/-- The bytes that one event moved into the buffer of the end `p`. -/
def Ev.arrived (p : EndPtr) : Ev → List UInt8
  | .recv q _ _ _ bytes => if q = p then bytes else []
  | _ => []

/-- The bytes that one event moved out of it. -/
def Ev.accepted (p : EndPtr) : Ev → List UInt8
  | .send q _ _ bytes => if q = p then bytes else []
  | _ => []

/-- All that `recv ()` has returned for the end `p`. -/
def arrived (log : List Ev) (p : EndPtr) : List UInt8 := log.flatMap (Ev.arrived p)

/-- All that `send ()` has accepted from the end `p`. -/
def accepted (log : List Ev) (p : EndPtr) : List UInt8 := log.flatMap (Ev.accepted p)

/-- `recv ()` stays inside the buffer, `send ()` is asked for something. -/
def Ev.Within : Ev → Prop
  | .recv _ _ off len _ => off + len ≤ poolBufSize
  | .send _ _ len _ => 0 < len
  | _ => True

/-- The buffer an event is about. -/
def Ev.port : Ev → Option EndPtr
  | .recv q _ _ _ _ => some q
  | .send q _ _ _ => some q
  | _ => none

theorem arrived_append (l l' : List Ev) (p : EndPtr) :
    arrived (l ++ l') p = arrived l p ++ arrived l' p := List.flatMap_append

theorem accepted_append (l l' : List Ev) (p : EndPtr) :
    accepted (l ++ l') p = accepted l p ++ accepted l' p := List.flatMap_append

/-- Events about other buffers move nothing. -/
theorem elsewhere (h : ∀ ev ∈ l, Ev.port ev ≠ some p) : arrived l p = [] ∧ accepted l p = [] := by
  simp only [arrived, accepted, List.flatMap_eq_nil_iff]
  refine ⟨fun ev hm => ?_, fun ev hm => ?_⟩
  · cases ev with
    | recv q sock off len bytes =>
      have hq : q ≠ p := fun he => h _ hm (congrArg some he)
      simp [Ev.arrived, hq]
    | _ => rfl
  · cases ev with
    | send q sock len bytes =>
      have hq : q ≠ p := fun he => h _ hm (congrArg some he)
      simp [Ev.accepted, hq]
    | _ => rfl

theorem silent_port (h : Silent l) : ∀ ev ∈ l, Ev.port ev = none := by
  intro ev hm
  rcases h ev hm with ⟨fd, rfl⟩ | ⟨b, rfl⟩ <;> rfl

theorem silent_within (h : Silent l) : ∀ ev ∈ l, Ev.Within ev := by
  intro ev hm
  rcases h ev hm with ⟨fd, rfl⟩ | ⟨b, rfl⟩ <;> trivial

/-- The end `p` has sent on what it was given, except for what it still holds. -/
structure Flow (log : List Ev) (p : EndPtr) (e : ConnEnd) : Prop where
  conserved : accepted log p ++ e.pending = arrived log p
  order : e.sent < e.total ∨ (e.sent = 0 ∧ e.total = 0)
  room : e.total ≤ poolBufSize
  filled : e.total ≤ e.buf.length

theorem Flow.sent_le (f : Flow log p e) : e.sent ≤ e.total := by
  have ho := f.order
  omega

/-- Ends with the same contents. -/
def SameBytes (e e' : ConnEnd) : Prop := e'.sent = e.sent ∧ e'.total = e.total ∧ e'.buf = e.buf

theorem Flow.same (f : Flow log p e) (hs : SameBytes e e') : Flow log p e' := by
  obtain ⟨h1, h2, h3⟩ := hs
  have hp : e'.pending = e.pending := by simp only [ConnEnd.pending, h1, h2, h3]
  exact ⟨hp ▸ f.conserved, by rw [h1, h2]; exact f.order, h2 ▸ f.room, by rw [h2, h3]; exact f.filled⟩

theorem Flow.quiet (f : Flow log p e) (ha : arrived l p = []) (hs : accepted l p = []) :
    Flow (log ++ l) p e := by
  refine { f with conserved := ?_ }
  rw [accepted_append, arrived_append, ha, hs, List.append_nil, List.append_nil]
  exact f.conserved

/-- Receiving extends the stream at its end. -/
theorem Flow.recv (f : Flow log p e) (sock : Fd) (off len : Nat) (bytes : List UInt8)
    (h0 : 0 < bytes.length) (h : e.total + bytes.length ≤ poolBufSize) :
    Flow (log ++ [.recv p sock off len bytes]) p (fill e bytes) := by
  have hle := f.sent_le
  refine ⟨?_, Or.inl ?_, h, overwrite_length e.buf e.total bytes f.filled⟩
  · have hw : (fill e bytes).pending = e.pending ++ bytes :=
      window_fill e.buf e.sent e.total bytes hle f.filled
    rw [hw, accepted_append, arrived_append, ← f.conserved]
    simp [arrived, accepted, Ev.arrived, Ev.accepted]
  · simp only [fill]
    omega

/-- Sending takes from the front of what the end holds. -/
theorem Flow.send (f : Flow log p e) (out : SendOut) (sock : Fd) (len : Nat) :
    Flow (log ++ [.send p sock len (e.pending.take (sendLen e out))]) p (afterSend e out) := by
  have hle := f.sent_le
  have hn : sendLen e out ≤ e.total - e.sent := Nat.min_le_right _ _
  have hlog : ∀ rest, e.pending.take (sendLen e out) ++ rest = e.pending →
      accepted (log ++ [.send p sock len (e.pending.take (sendLen e out))]) p ++ rest =
        arrived (log ++ [.send p sock len (e.pending.take (sendLen e out))]) p := by
    intro rest hrest
    rw [accepted_append, arrived_append, ← f.conserved, List.append_assoc]
    simp [accepted, arrived, Ev.accepted, Ev.arrived, hrest]
  unfold afterSend
  split
  · unfold ConnEnd.advance
    split
    · rename_i hall
      refine ⟨hlog _ ?_, Or.inr ⟨rfl, rfl⟩, Nat.zero_le _, Nat.zero_le _⟩
      have hlen : e.pending.length ≤ sendLen e out := by
        rw [ConnEnd.pending, window_length _ _ _ f.filled]
        omega
      rw [List.take_of_length_le hlen]
      simp [ConnEnd.pending]
    · refine ⟨hlog _ ?_, Or.inl (by simp only; omega), f.room, f.filled⟩
      exact window_drain e.buf e.sent e.total (sendLen e out) (by omega)
  · rename_i h0
    have hz : sendLen e out = 0 := Nat.eq_zero_of_not_pos h0
    have hkeep : Flow (log ++ [.send p sock len (e.pending.take (sendLen e out))]) p e := by
      refine { f with conserved := hlog _ ?_ }
      rw [hz, List.take_zero, List.nil_append]
    split
    · exact hkeep.same ⟨rfl, rfl, rfl⟩
    · exact hkeep

/-- Both directions of every connection in memory, and every call so far. -/
structure Streams (heap : Nat → Option Conn) (log : List Ev) (next : Nat) : Prop where
  ends : ∀ {b c}, heap b = some c → ∀ s, Flow log (ptr b s) (side c s)
  within : ∀ ev ∈ log, Ev.Within ev
  old : ∀ ev ∈ log, ∀ p, Ev.port ev = some p → p.block < next

/-- Events about one block leave the streams of all others alone. -/
theorem Streams.extend (S : Streams heap log next) (b : Nat) (hb : b < next)
    (hw : ∀ ev ∈ l, Ev.Within ev) (hp : ∀ ev ∈ l, ∀ p, Ev.port ev = some p → p.block = b)
    (hheap : ∀ b' c, b' ≠ b → heap' b' = some c → heap b' = some c)
    (hnew : ∀ c, heap' b = some c → ∀ s, Flow (log ++ l) (ptr b s) (side c s)) :
    Streams heap' (log ++ l) next where
  ends := by
    intro b' c hc s
    by_cases he : b' = b
    · subst he
      exact hnew c hc s
    · have helse : ∀ ev ∈ l, Ev.port ev ≠ some (ptr b' s) := by
        intro ev hm hq
        have hblock := hp ev hm _ hq
        rw [ptr_block] at hblock
        exact he hblock
      obtain ⟨ha, hs⟩ := elsewhere helse
      exact (S.ends (hheap b' c he hc) s).quiet ha hs
  within := by
    intro ev hm
    rcases List.mem_append.mp hm with hm | hm
    · exact S.within ev hm
    · exact hw ev hm
  old := by
    intro ev hm p hq
    rcases List.mem_append.mp hm with hm | hm
    · exact S.old ev hm p hq
    · exact (hp ev hm p hq).symm ▸ hb

/-- Closing and freeing leave the streams of what remains alone. -/
theorem Streams.shrink (S : Streams heap log next) (hl : Silent l)
    (hheap : ∀ b c, heap' b = some c → heap b = some c) : Streams heap' (log ++ l) next where
  ends := by
    intro b c hc s
    have helse : ∀ ev ∈ l, Ev.port ev ≠ some (ptr b s) := by
      intro ev hm hq
      rw [silent_port hl ev hm] at hq
      cases hq
    obtain ⟨ha, hs⟩ := elsewhere helse
    exact (S.ends (hheap b c hc) s).quiet ha hs
  within := by
    intro ev hm
    rcases List.mem_append.mp hm with hm | hm
    · exact S.within ev hm
    · exact silent_within hl ev hm
  old := by
    intro ev hm p hq
    rcases List.mem_append.mp hm with hm | hm
    · exact S.old ev hm p hq
    · rw [silent_port hl ev hm] at hq
      cases hq

/-- A connection is replaced by one with the same contents. -/
theorem Streams.same (S : Streams heap log next) (hb : heap b = some c)
    (hs : ∀ s, SameBytes (side c s) (side c' s)) : Streams (update heap b (some c')) log next := by
  refine { S with ends := ?_ }
  intro b' c0 h0 s
  rcases update_eq_some h0 with ⟨rfl, hx⟩ | ⟨_, h0⟩
  · simp only [Option.some.injEq] at hx
    exact hx ▸ (S.ends hb s).same (hs s)
  · exact S.ends h0 s

section fates

def Flows (w : World) (next : Nat) : Prop := Streams w.heap w.log next

theorem flows_bare (h : bare w' = bare w) (hw : Flows w next) : Flows w' next := by
  have hheap : w'.heap = w.heap := congrArg (fun w => w.heap) h
  have hlog : w'.log = w.log := congrArg (fun w => w.log) h
  unfold Flows
  rw [hheap, hlog]
  exact hw

theorem flows_gone (hw : Flows w next) (b : Nat) (c : Conn) (notify : Bool) :
    Flows (gone cnf w b c notify) next := by
  unfold Flows
  rw [gone_heap, gone_log]
  exact hw.shrink (by simp [Silent]) (fun _ _ => update_none)

theorem flows_detached (hw : Flows w next) (c : Conn) : Flows (detached w c) next := by
  unfold Flows
  rw [detached_log]
  exact hw.shrink (by simp [Silent]) (fun _ _ h => h)

theorem flows_lost (hw : Flows w next) (b : Nat) (c : Conn) (now : Int) (hl : Silent l) :
    Flows (lost cnf w b c now l) next :=
  hw.shrink hl (fun _ _ => update_none)

theorem flows_attached (hw : Flows w next) (hb : w.heap b = some c)
    (hs : ∀ s, SameBytes (side c s) (side c' s)) : Flows (attached w b c') next := by
  unfold Flows
  rw [attached_heap]
  refine Streams.same hw hb ?_
  intro s
  cases s with
  | inc => exact hs .inc
  | dst => exact hs .dst

theorem same_wake (d e : ConnEnd) : SameBytes e (wake d e) := by
  unfold wake
  split <;> exact ⟨rfl, rfl, rfl⟩

theorem same_stall (c : Conn) (s t : Side) : SameBytes (side c t) (side (stall c s) t) := by
  unfold stall
  split
  · cases s <;> cases t <;> exact ⟨rfl, rfl, rfl⟩
  · exact ⟨rfl, rfl, rfl⟩

theorem sent_conn_other (c : Conn) (s : Side) (out : SendOut) (resume : Bool) :
    SameBytes (side c s.other) (side (sentConn c s out resume) s.other) := by
  unfold sentConn
  split
  · rw [side_set]
    exact same_wake _ _
  · rw [side_set_other]
    exact ⟨rfl, rfl, rfl⟩

theorem same_bytes_settled (c : Conn) (s t : Side) : SameBytes (side c t) (side (settled c s) t) := by
  unfold settled
  split
  · cases t <;> exact ⟨rfl, rfl, rfl⟩
  · exact ⟨rfl, rfl, rfl⟩

theorem same_trans {e1 e2 e3 : ConnEnd} (h : SameBytes e1 e2) (h' : SameBytes e2 e3) : SameBytes e1 e3 :=
  ⟨h'.1.trans h.1, h'.2.1.trans h.2.1, h'.2.2.trans h.2.2⟩

/-- Calls on the buffer of side `s` of one connection, with what they leave. -/
theorem flows_put (hw : Flows w next) (hb : b < next) (hc : w.heap b = some c) (s : Side)
    (hin : ∀ ev ∈ l, Ev.Within ev) (hp : ∀ ev ∈ l, Ev.port ev = some (ptr b s))
    (hf : Flow (w.log ++ l) (ptr b s) (side c' s)) (ho : SameBytes (side c s.other) (side c' s.other)) :
    Flows (putConn (logs w l) b c') next := by
  refine Streams.extend hw b hb hin ?_ ?_ ?_
  · intro ev hm p hq
    rw [hp ev hm, Option.some.injEq] at hq
    rw [← hq, ptr_block]
  · intro b' c0 hne h0
    simpa [putConn, logs, hne] using h0
  · intro c0 h0 t
    have hc0 : c' = c0 := by simpa using h0
    subst hc0
    by_cases ht : t = s
    · exact ht ▸ hf
    · have hto : t = s.other := by cases s <;> cases t <;> simp_all [Side.other]
      have hne : ptr b s ≠ ptr b s.other := by
        cases s <;> simp [ptr, incPtr, dstPtr, Side.other, poolEndSize]
      have helse : ∀ ev ∈ l, Ev.port ev ≠ some (ptr b s.other) := by
        intro ev hm hq
        rw [hp ev hm, Option.some.injEq] at hq
        exact hne hq
      obtain ⟨ha, hs⟩ := elsewhere helse
      exact hto ▸ ((hw.ends hc s.other).quiet ha hs).same ho

theorem recv_within (hf : Flow log (ptr b s) (side c s)) (bytes : List UInt8) :
    Ev.Within (recvEv b c s bytes) := by
  have hr := hf.room
  simp only [recvEv, Ev.Within]
  omega

theorem send_within (hf : Flow log (ptr b s) (side c s)) (h0 : (side c s).total ≠ 0) :
    Ev.Within (sendEv b c s out) := by
  have ho := hf.order
  simp only [sendEv, Ev.Within]
  omega

/-- A `recv ()` that returned no bytes. -/
theorem flows_nothing (hw : Flows w next) (hb : b < next) (hc : w.heap b = some c) (s : Side) :
    Flows (logs w [recvEv b c s []]) next := by
  have hput := flows_put (l := [recvEv b c s []]) hw hb hc s
    (by simpa using recv_within (hw.ends hc s) [])
    (by simp [recvEv, Ev.port])
    ((hw.ends hc s).quiet (by simp [arrived, recvEv, Ev.arrived])
      (by simp [accepted, recvEv, Ev.accepted]))
    ⟨rfl, rfl, rfl⟩
  rwa [put_conn_same (by exact hc)] at hput

theorem flow_filled (hw : Flows w next) (hc : w.heap b = some c) (s : Side) {bytes : List UInt8}
    (h0 : 0 < bytes.length) (h : (side c s).total + bytes.length ≤ poolBufSize) :
    Flow (w.log ++ [recvEv b c s bytes]) (ptr b s) (side (filled c s bytes) s) := by
  rw [filled, side_set]
  exact (hw.ends hc s).recv _ _ _ bytes h0 h

theorem flow_sent (hf : Flow log (ptr b s) (side c s)) (out : SendOut) :
    Flow (log ++ [sendEv b c s out]) (ptr b s) (afterSend (side c s) out) :=
  hf.send out _ _

/-- The same, when the connection is then closed. -/
theorem flows_ended (cnf : Cnf) (hw : Flows w next) (hb : b < next) (s : Side)
    (hin : ∀ ev ∈ l, Ev.Within ev) (hp : ∀ ev ∈ l, Ev.port ev = some (ptr b s)) (notify : Bool) :
    Flows (gone cnf (putConn (logs w l) b c) b c notify) next := by
  have hfree : Streams (update w.heap b none) (w.log ++ l) next := by
    refine Streams.extend hw b hb hin ?_ ?_ ?_
    · intro ev hm p hq
      rw [hp ev hm, Option.some.injEq] at hq
      rw [← hq, ptr_block]
    · intro b' c0 _ h0
      exact update_none h0
    · intro c0 h0
      simp at h0
  unfold Flows
  rw [gone_heap, gone_log]
  refine Streams.shrink hfree (by simp [Silent]) ?_
  intro b' c0 h0
  simpa [putConn, logs] using h0

theorem read_flows (hw : Flows w next) (hb : b < next) (hc : w.heap b = some c)
    (hf : ReadFate cnf w b c s recv send w') : Flows w' next := by
  -- what the calls of a read that returned bytes are asked for
  have hcalls : ∀ bytes : List UInt8, 0 < bytes.length →
      (side c s).total + bytes.length ≤ poolBufSize →
      ∀ ev ∈ [recvEv b c s bytes, sendEv b (filled c s bytes) s send], Ev.Within ev := by
    intro bytes h0 h
    have hne : (side (filled c s bytes) s).total ≠ 0 := by
      simp only [filled, side_set, fill]
      omega
    simpa using ⟨recv_within (hw.ends hc s) bytes, send_within (flow_filled hw hc s h0 h) hne⟩
  have hports : ∀ bytes : List UInt8,
      ∀ ev ∈ [recvEv b c s bytes, sendEv b (filled c s bytes) s send], Ev.port ev = some (ptr b s) := by
    intro bytes
    simp [recvEv, sendEv, Ev.port]
  cases hf with
  | full _ => exact hw
  | nothing _ => exact flows_nothing hw hb hc s
  | closed _ _ => exact flows_gone (flows_nothing hw hb hc s) b c true
  | detach _ _ _ => exact flows_detached (flows_nothing hw hb hc s) c
  | passed avail bytes _ _ h0 h =>
    refine flows_put hw hb hc s (hcalls bytes h0 h) (hports bytes) ?_ ?_
    · have hsent := flow_sent (flow_filled hw hc s h0 h) send
      rw [List.append_assoc, ← sent_conn_end _ s send false] at hsent
      exact hsent.same (same_stall _ s s)
    · refine same_trans ?_ (same_trans (sent_conn_other _ s send false) (same_stall _ s s.other))
      rw [filled, side_set_other]
      exact ⟨rfl, rfl, rfl⟩
  | broken bytes h0 h _ _ => exact flows_ended cnf hw hb s (hcalls bytes h0 h) (hports bytes) true

theorem write_flows (hw : Flows w next) (hb : b < next) (hc : w.heap b = some c)
    (hf : WriteFate cnf w b c s env send w') : Flows w' next := by
  have hset : Flow w.log (ptr b s) (side (settled c s) s) := (hw.ends hc s).same (same_bytes_settled c s s)
  have hports : ∀ ev ∈ [sendEv b (settled c s) s send], Ev.port ev = some (ptr b s) := by
    simp [sendEv, Ev.port]
  cases hf with
  | drained _ => exact Streams.same hw hc (same_bytes_settled c s)
  | passed h0 =>
    refine flows_put hw hb hc s (by simpa using send_within hset h0) hports ?_ ?_
    · rw [sent_conn_end]
      exact flow_sent hset send
    · exact same_trans (same_bytes_settled c s s.other) (sent_conn_other _ s send true)
  | broken h0 => exact flows_ended cnf hw hb s (by simpa using send_within hset h0) hports true
  | refused _ _ _ =>
    have hrel := flows_ended cnf (c := released c) (l := [])
      (w := rerouted cnf w c env) hw hb s (by simp) (by simp) false
    rwa [logs_nil] at hrel
  | moved addr fd _ _ _ _ _ =>
    have hdet : Flows (opened (detached (rerouted cnf w c env) c) fd) next :=
      flows_detached (w := rerouted cnf w c env) hw c
    refine flows_attached hdet (c := c) hc ?_
    intro t
    cases t <;> exact ⟨rfl, rfl, rfl⟩
  | abandoned addr l _ _ _ hl =>
    exact flows_lost (flows_detached (w := rerouted cnf w c env) hw c) b _ _ hl

theorem removals_flows (hr : Removals cnf w w') (hw : Flows w next) : Flows w' next :=
  removals_keep (fun w => Flows w next) hr (fun _ _ h => flows_bare h)
    (fun _ _ _ _ _ h => flows_gone h _ _ false) (fun _ _ _ _ _ _ h => flows_detached h _) hw

/-- A step of a pool thread keeps the streams. -/
theorem fate_flows (hw : Flows w next) (hb : ∀ b c, w.heap b = some c → b < next)
    (hf : Fate cnf i w op w') : Flows w' next := by
  cases hf with
  | read hh hk hf => exact read_flows hw (hb _ _ hh.block) hh.block hf
  | write hh hk hf => exact write_flows hw (hb _ _ hh.block) hh.block hf
  | lost env hp hc hd hl => exact flows_lost (w := popped w _) hw _ _ _ hl
  | added env hp hc hs =>
    rcases hs with ⟨_, rfl, rfl⟩ | ⟨_, fd, _, _, rfl, rfl⟩
    · exact flows_attached (w := popped w _) hw hc (fun t => ⟨rfl, rfl, rfl⟩)
    · refine flows_attached (w := opened (popped w _) fd) hw hc ?_
      intro t
      cases t <;> exact ⟨rfl, rfl, rfl⟩
  | stats env hp => exact hw
  | dropped env hp hw1 hr => exact removals_flows hr (flows_bare hw1 hw)
  | shutdown env hp hw1 hr =>
    have hu := removals_flows hr (flows_bare hw1 hw)
    exact Streams.shrink hu (by simp [Silent]) (fun _ _ h => h)

end fates

/-- The daemon's connections and the calls made for them. -/
def Flowing (d : Daemon) : Prop := Registered d ∧ Streams d.heap d.log d.nextBlock

theorem silent_close (fd : Fd) : Silent [Ev.close fd] := by simp [Silent]

theorem streams_close (hs : Streams heap log next) (fd : Fd) :
    Streams heap (log ++ [.close fd]) next :=
  hs.shrink (silent_close fd) (fun _ _ h => h)

theorem streams_undo (hs : Streams d.heap d.log d.nextBlock) (inc sock : Fd) (dst : SockAddr) :
    Streams (listenerUndo cnf d inc sock dst).heap (listenerUndo cnf d inc sock dst).log
      (listenerUndo cnf d inc sock dst).nextBlock :=
  streams_close (streams_close hs sock) inc

/-- A new block has no history. -/
theorem streams_alloc (hs : Streams d.heap d.log d.nextBlock) (inc : Fd) (addr : SockAddr) (sock : Fd)
    (dst : SockAddr) (complete : Bool) :
    Streams (allocated d (newConn inc addr sock dst complete)).heap d.log (d.nextBlock + 1) where
  ends := by
    intro b c hc s
    rcases update_eq_some hc with ⟨rfl, hx⟩ | ⟨_, hc⟩
    · simp only [Option.some.injEq] at hx
      have helse : ∀ ev ∈ d.log, Ev.port ev ≠ some (ptr d.nextBlock s) := by
        intro ev hm hq
        have hlt := hs.old ev hm _ hq
        rw [ptr_block] at hlt
        exact Nat.lt_irrefl _ hlt
      obtain ⟨ha, hsent⟩ := elsewhere helse
      subst hx
      cases s <;> exact ⟨by simp [ha, hsent, newConn, side, ConnEnd.pending], Or.inr ⟨rfl, rfl⟩,
        Nat.zero_le _, Nat.zero_le _⟩
    · exact hs.ends hc s
  within := hs.within
  old := fun ev hm p hq => Nat.lt_succ_of_lt (hs.old ev hm p hq)

theorem accept_flows (hs : Streams d.heap d.log d.nextBlock)
    (h : AcceptFate cnf d fd addr env d') : Streams d'.heap d'.log d'.nextBlock := by
  cases h with
  | turned l hl => exact hs.shrink hl (fun _ _ h => h)
  | none r l hl _ => exact hs.shrink hl (fun _ _ h => h)
  | noneSync r l hl _ => exact hs.shrink hl (fun _ _ h => h)
  | chosen r dst _ => exact hs
  | connecting r i sock _ _ _ => exact hs

theorem connected_flows (hs : Streams d.heap d.log d.nextBlock)
    (h : ConnectedFate cnf d inc addr sock hint i now env d') :
    Streams d'.heap d'.log d'.nextBlock := by
  cases h with
  | retry r j _ => exact hs
  | failed r _ => exact streams_close (streams_close hs sock) inc
  | done dst _ => exact hs
  | pending dst _ => exact streams_close hs sock

theorem add_flows (hs : Streams d.heap d.log d.nextBlock)
    (h : AddFate cnf d inc addr sock dst complete d') : Streams d'.heap d'.log d'.nextBlock := by
  have halloc := streams_alloc hs inc addr sock dst complete
  cases h with
  | noMemory => exact streams_undo hs inc sock dst
  | unsent => exact streams_undo halloc inc sock dst
  | queued => exact halloc

theorem flowing_step (hd : Flowing d) (h : daemonStep build cnf ctrl d op = some d') : Flowing d' := by
  obtain ⟨⟨claim, home, L⟩, hs⟩ := hd
  refine ⟨registered_step ⟨claim, home, L⟩ h, ?_⟩
  cases step_cases L h with
  | accept _ _ _ h => exact accept_flows hs h
  | connected _ h => exact connected_flows hs h
  | addConn _ h => exact add_flows hs h
  | @pool _ _ i p u w' hp =>
    obtain ⟨_, _, hf, hb, rfl⟩ := hp
    have hw : Flows (d.world p) d.nextBlock := hs
    have hflows := fate_flows hw (fun _ _ hc => L.below hc) hf
    exact flows_bare hb hflows
  | request h =>
    obtain ⟨_, hh, _, hl, _, hn⟩ := request_frame h
    rw [hh, hl, hn]
    exact hs
  | drop dst => exact hs
  | destroy => exact hs

/-- Bytes pass a pool in order, none lost and none twice. In every state of the
daemon and for every descriptor registered with a pool, the end that takes what is
read from the descriptor has given to `send ()` all that `recv ()` returned for it
but for what its buffer holds; the buffer's bounds hold, and no call so far was
made outside of them. -/
theorem stream_conserved (hn : pipes.Nodup) (hu : ∀ fd ∈ pipes, 0 < fd ∧ used fd = true)
    (h : exec (daemonStep build cnf ctrl) (Daemon.init pipes used router) ops = some d) :
    (∀ (i : Nat) pool fd q, d.pools[i]? = some pool → pool.routeMap fd = some q →
      ∃ e, (d.world pool).deref q = some e ∧
        accepted d.log q ++ e.pending = arrived d.log q ∧ e.pending.length = e.total - e.sent ∧
        e.total ≤ poolBufSize ∧ (e.sent < e.total ∨ (e.sent = 0 ∧ e.total = 0))) ∧
    ∀ ev ∈ d.log, Ev.Within ev := by
  have hinit : Flowing (Daemon.init pipes used router) :=
    ⟨registered_init hn hu router, by simp [Daemon.init], by simp [Daemon.init], by simp [Daemon.init]⟩
  obtain ⟨⟨claim, home, L⟩, hs⟩ := exec_invariant (fun _ _ _ => flowing_step) hinit h
  refine ⟨?_, hs.within⟩
  intro i pool fd q hp hr
  obtain ⟨b, c, s, _, hh, _, rfl⟩ := served (pool_ledger L hp) hr
  have hq : q = ptr b s.other := Option.some.inj (hr.symm.trans (hh.route s))
  have hf := hs.ends hh.block s.other
  refine ⟨side c s.other, hq ▸ deref_ptr hh.block s.other, hq ▸ hf.conserved, ?_, hf.room, hf.order⟩
  exact window_length _ _ _ hf.filled

/-- Two of a client's three bytes reach the server at once, one waits. -/
theorem stream_conserved_three_bytes :
    arrived (reachedBy leastConns (threeBytes 2)).log (dstPtr 0) = [1, 2, 3] ∧
    accepted (reachedBy leastConns (threeBytes 2)).log (dstPtr 0) = [1, 2] ∧
    ∃ pool e, (reachedBy leastConns (threeBytes 2)).pools[0]? = some pool ∧
      ((reachedBy leastConns (threeBytes 2)).world pool).deref (dstPtr 0) = some e ∧
      [1, 2] ++ e.pending = [1, 2, 3] := by
  have hin : arrived (reachedBy leastConns (threeBytes 2)).log (dstPtr 0) = [1, 2, 3] := by decide +kernel
  have hout : accepted (reachedBy leastConns (threeBytes 2)).log (dstPtr 0) = [1, 2] := by decide +kernel
  obtain ⟨pool, hp, hr⟩ : ∃ pool, (reachedBy leastConns (threeBytes 2)).pools[0]? = some pool ∧
      pool.routeMap 6 = some (dstPtr 0) := by
    have hr : (reachedBy leastConns (threeBytes 2)).pools[0]?.bind (fun p => p.routeMap 6) =
        some (dstPtr 0) := by decide +kernel
    exact Option.bind_eq_some_iff.mp hr
  have hrun := stream_conserved (by simp) (by decide)
    (reached_by leastConns (threeBytes 2) (by decide +kernel))
  obtain ⟨e, he, hc, _⟩ := hrun.1 0 pool 6 (dstPtr 0) hp hr
  rw [hin, hout] at hc
  exact ⟨hin, hout, pool, e, hp, he, hc⟩

end Glb.Proofs.Stream
