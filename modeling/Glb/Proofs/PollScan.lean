import Glb.Lib.SwapRemove
import Glb.Proofs.LoopBody

namespace Glb.Proofs.PollScan
open Function Lib.Run Lib.SwapRemove PoolFrame PoolEvents FdTable FdSteps Drop Serving EventCalls LoopBody

variable {cnf : Cnf} {w w' w1 : World} {b : Nat} {c : Conn} {s : Side} {x : PollFd}
variable {α : Type} {p : α → Bool} {l : List α} {i j k : Nat}

/-- How many slots from `d` on are marked ready. -/
def readyFrom (w : World) (d : Nat) : Nat :=
  (w.fdset.pollfds.drop d).countP fun x => x.revents ≠ 0

def readyAt (w : World) (j : Nat) : Bool := (w.fdset.pollfds[j]?).any fun x => x.revents ≠ 0

/-- The pool may lose the connection of the slot when that is reported writable. -/
def exposedAt (w : World) (i : Nat) : Bool :=
  (w.fdset.pollfds[i]?).any fun x => (endAt w x.fd).any fun e => Exposed e

/-- The slots that move, or leave, when the connection at `i` and `k` is removed and
`m` is the last slot. The server's slot goes first. -/
def moved (server : Bool) (i k m : Nat) : List Nat :=
  if k < i then [m - 1, m]
  else if server then [if k = m then m - 1 else k, m]
  else [if k = m - 1 then m else m - 1, k]

/-- The slots ahead of `i` that are not there any more once its connection is removed:
those that are taken out and those that fill a hole at or behind `i`. -/
def passedOver (w : World) (i : Nat) : List Nat :=
  (((w.fdset.pollfds[i]?).bind fun x => w.routeMap x.fd).map fun q =>
    (moved (q = incPtr q.block) i (w.fdset.fdsIdx q) (w.fdset.fdMax - 1)).filter (i < ·)).getD []

/-- The pipe is not ready for something that is not handled, and no ready slot is
passed over should the next call lose its connection. -/
def LossFree (s : EventLoop) (_ : EventEnv) : Prop :=
  match s.cursor with
  | .top _ =>
    (s.world.fdset.pollfds[0]?).all (fun x => x.revents &&& poolFdRead ≠ 0 ∨ x.revents = 0) = true
  | .slotWrite idx _ revents => revents &&& poolFdWrite ≠ 0 → exposedAt s.world idx = true →
    ∀ j ∈ passedOver s.world idx, readyAt s.world j = false
  | _ => True

/-- `assert (idx < pool->fd_max)`. -/
def InBounds (s : EventLoop) (_ : EventEnv) : Prop :=
  match s.cursor with
  | .slot idx count => count ≠ 0 → idx < s.world.fdset.fdMax
  | _ => True

instance : (s : EventLoop) → (env : EventEnv) → Decidable (LossFree s env)
  | ⟨_, .top _⟩, _ => inferInstanceAs (Decidable (_ = true))
  | ⟨w, .slotWrite idx _ revents⟩, _ => inferInstanceAs (Decidable (revents &&& poolFdWrite ≠ 0 →
      exposedAt w idx = true → ∀ j ∈ passedOver w idx, readyAt w j = false))
  | ⟨_, .event _⟩, _ | ⟨_, .eventWrite _ _⟩, _ | ⟨_, .slot _ _⟩, _ | ⟨_, .returned⟩, _ => .isTrue trivial

instance : (s : EventLoop) → (env : EventEnv) → Decidable (InBounds s env)
  | ⟨w, .slot idx count⟩, _ => inferInstanceAs (Decidable (count ≠ 0 → idx < w.fdset.fdMax))
  | ⟨_, .event _⟩, _ | ⟨_, .eventWrite _ _⟩, _ | ⟨_, .top _⟩, _ | ⟨_, .slotWrite _ _ _⟩, _
  | ⟨_, .returned⟩, _ => .isTrue trivial

section slots

/-- Where the client's slot is once the server's is removed. -/
def clientSlot (kd ki m : Nat) : Nat := if ki = m then kd else ki

theorem swapRemove_any (hk : k < l.length) (hj : j < l.length - 1) :
    ((swapRemove l k)[j]?).any p = (l[if j = k then l.length - 1 else j]?).any p := by
  rw [swapRemove_getElem? l k j hk hj]
  split
  · rw [List.getLast?_eq_getElem?]
  · rfl

theorem filtered_pair (q : Nat → Bool) (i x y : Nat) : ([x, y].filter (i < ·)).countP q =
    (if i + 1 ≤ x ∧ q x then 1 else 0) + (if i + 1 ≤ y ∧ q y then 1 else 0) := by
  change _ = (if i < x ∧ q x then 1 else 0) + (if i < y ∧ q y then 1 else 0)
  by_cases hx : i < x <;> by_cases hy : i < y <;>
    simp [hx, hy, List.countP_cons, Nat.add_comm]

/-- Both removals, by what each takes from the slots ahead. -/
theorem removed_twice (hk : k < l.length) (hj : j < l.length - 1) (d : Nat) :
    (l.drop d).countP p = ((swapRemove (swapRemove l k) j).drop d).countP p +
      ((if d ≤ lostFrom (l.length - 1) j d ∧
          ((swapRemove l k)[lostFrom (l.length - 1) j d]?).any p then 1 else 0) +
        if d ≤ lostFrom l.length k d ∧ (l[lostFrom l.length k d]?).any p then 1 else 0) := by
  rw [countP_drop_swapRemove p l k d hk, countP_drop_swapRemove p (swapRemove l k) j d (by simpa using hj),
    swapRemove_length, Nat.add_assoc]

theorem removed_server (hi : i < l.length) (hk : k < l.length) (hne : k ≠ i) :
    (l.drop (i + 1)).countP p =
      ((swapRemove (swapRemove l i) (clientSlot i k (l.length - 1))).drop (i + 1)).countP p +
        ((moved true i k (l.length - 1)).filter (i < ·)).countP fun j => (l[j]?).any p := by
  have hc : clientSlot i k (l.length - 1) < l.length - 1 := by
    unfold clientSlot
    split <;> omega
  rw [removed_twice hi hc]
  congr 1
  have hlost : lostFrom l.length i (i + 1) = l.length - 1 := if_neg (by omega)
  rw [hlost]
  by_cases hlt : k < i
  · have h1 : lostFrom (l.length - 1) (clientSlot i k (l.length - 1)) (i + 1) = l.length - 1 - 1 := by
      rw [clientSlot, if_neg (by omega)]
      exact if_neg (by omega)
    rw [h1, moved, if_pos hlt, filtered_pair, swapRemove_any hi (by omega)]
    by_cases he : l.length - 1 - 1 = i
    · simp [he]
    · rw [if_neg he]
  · rw [moved, if_neg hlt, if_pos rfl, filtered_pair]
    by_cases hm : k = l.length - 1
    · have h1 : lostFrom (l.length - 1) (clientSlot i k (l.length - 1)) (i + 1) = l.length - 1 - 1 := by
        rw [clientSlot, if_pos hm]
        exact if_neg (by omega)
      rw [h1, if_pos hm, swapRemove_any hi (by omega)]
      by_cases he : l.length - 1 - 1 = i
      · simp [he]
      · rw [if_neg he]
    · have h1 : lostFrom (l.length - 1) (clientSlot i k (l.length - 1)) (i + 1) = k := by
        rw [clientSlot, if_neg hm]
        exact if_pos (by omega)
      rw [h1, if_neg hm, swapRemove_any hi (by omega), if_neg hne]

theorem removed_client (hi : i < l.length) (hk : k < l.length) (hne : k ≠ i) :
    (l.drop (i + 1)).countP p =
      ((swapRemove (swapRemove l k) (clientSlot k i (l.length - 1))).drop (i + 1)).countP p +
        ((moved false i k (l.length - 1)).filter (i < ·)).countP fun j => (l[j]?).any p := by
  have hc : clientSlot k i (l.length - 1) < l.length - 1 := by
    unfold clientSlot
    split <;> omega
  rw [removed_twice hk hc]
  congr 1
  have h1 : lostFrom (l.length - 1) (clientSlot k i (l.length - 1)) (i + 1) = l.length - 1 - 1 := by
    unfold clientSlot
    split
    · by_cases hlt : k < i
      · exact if_neg (by omega)
      · omega
    · exact if_neg (by omega)
  rw [h1, swapRemove_any hk (by omega)]
  by_cases hlt : k < i
  · have h2 : lostFrom l.length k (i + 1) = l.length - 1 := if_neg (by omega)
    rw [h2, moved, if_pos hlt, filtered_pair]
    by_cases he : l.length - 1 - 1 = k
    · have hz : ¬ i + 1 ≤ l.length - 1 - 1 := by omega
      simp [hz]
    · rw [if_neg he]
  · have h2 : lostFrom l.length k (i + 1) = k := if_pos (by omega)
    rw [h2, moved, if_neg hlt, if_neg (show ¬ false = true by simp), filtered_pair]
    by_cases he : k = l.length - 1 - 1
    · have hz : i + 1 ≤ l.length - 1 := by omega
      have hz' : i + 1 ≤ l.length - 1 - 1 := by omega
      rw [if_pos he.symm, if_pos he]
      simp [hz, hz']
    · rw [if_neg (Ne.symm he), if_neg he]

end slots

section table

theorem ready_from_marks (w : World) (d : Nat) :
    readyFrom w d = ((marks w).drop d).countP fun m => m.2 ≠ 0 := by
  unfold readyFrom marks
  rw [← List.map_drop, List.countP_map]
  rfl

theorem ready_at_marks (w : World) (j : Nat) : readyAt w j = ((marks w)[j]?).any fun m => m.2 ≠ 0 := by
  unfold readyAt marks
  rw [List.getElem?_map]
  cases w.fdset.pollfds[j]? <;> rfl

theorem fds_idx_eq (T : Tabled .poll w) (h : Routed w b c s) (hx : w.fdset.pollfds[j]? = some x)
    (hfd : x.fd = (side c s).sock) : w.fdset.fdsIdx (ptr b s) = j := by
  obtain ⟨y, hy, hyfd, _⟩ := T.idx rfl h
  exact T.slot_inj hy hx (hyfd.trans hfd.symm)

theorem reset_slots (h : poolResetConnEnd .poll w q cl = some w') :
    w'.fdset.pollfds = swapRemove w.fdset.pollfds (w.fdset.fdsIdx q) := by
  unfold poolResetConnEnd poolFdsDel at h
  simp only [Option.bind_eq_bind, Option.bind_eq_some_iff, Option.ite_none_right_eq_some,
    Option.some.injEq] at h
  obtain ⟨w1, ⟨e, _, y, _, r, _, _, rfl⟩, e1, _, rfl⟩ := h
  cases cl <;> rfl

/-- The slots that `pool_remove_conn` leaves. -/
theorem remove_slots (T : Tabled .poll w) (hh : Held w b c)
    (h : poolRemoveConn .poll cnf w (side c s).sock notify = some w') :
    w'.fdset.pollfds = swapRemove (swapRemove w.fdset.pollfds (w.fdset.fdsIdx (ptr b .dst)))
      (clientSlot (w.fdset.fdsIdx (ptr b .dst)) (w.fdset.fdsIdx (ptr b .inc)) (w.fdset.fdMax - 1)) := by
  have hk := T.kinds (held_routed hh s)
  let w0 : World := { w with
    nConns := w.nConns - 1
    stats := { w.stats with connsClosed := w.stats.connsClosed + 1 } }
  have T0 : Tabled .poll w0 := ⟨T.entry, T.slots, T.nodup, T.mem, T.idx⟩
  obtain ⟨w1, h1, T1, hb1, _⟩ := reset_tabled T0 (held_routed hh .dst) true
  have hslots1 : w1.fdset.pollfds = swapRemove w.fdset.pollfds (w.fdset.fdsIdx (ptr b .dst)) :=
    (reset_slots h1).trans rfl
  have hr1 : Routed w1 b c .inc := by
    refine ⟨(congrArg (fun w => w.heap b) hb1).trans hh.block, ?_⟩
    rw [show w1.routeMap = update w.routeMap c.dst.sock none from congrArg (fun w => w.routeMap) hb1]
    exact (update_of_ne (held_socks hh) none w.routeMap).trans (hh.route .inc)
  -- the client's slot may have been the one that filled the hole
  have hidx : w1.fdset.fdsIdx (ptr b .inc) =
      clientSlot (w.fdset.fdsIdx (ptr b .dst)) (w.fdset.fdsIdx (ptr b .inc)) (w.fdset.fdMax - 1) := by
    obtain ⟨y, hy, hyfd, _⟩ := T.idx rfl (held_routed hh .inc)
    obtain ⟨z, hz, hzfd, _⟩ := T.idx rfl (held_routed hh .dst)
    have hyl := (List.getElem?_eq_some_iff.mp hy).1
    have hzl := (List.getElem?_eq_some_iff.mp hz).1
    have hne : w.fdset.fdsIdx (ptr b .inc) ≠ w.fdset.fdsIdx (ptr b .dst) := by
      intro he
      rw [he, hz, Option.some.injEq] at hy
      exact held_socks hh (hyfd.symm.trans (hy ▸ hzfd))
    refine fds_idx_eq T1 hr1 (x := y) ?_ hyfd
    rw [hslots1, clientSlot, FdSet.fdMax]
    split
    · rename_i hlast
      rw [swapRemove_getElem? _ _ _ hzl (by omega), if_pos rfl, List.getLast?_eq_getElem?, ← hlast]
      exact hy
    · rw [swapRemove_getElem? _ _ _ hzl (by omega), if_neg hne]
      exact hy
  have second : ∀ {cl w2}, poolResetConnEnd .poll w1 (ptr b .inc) cl = some w2 → w2.fdset.pollfds =
      swapRemove (swapRemove w.fdset.pollfds (w.fdset.fdsIdx (ptr b .dst)))
        (clientSlot (w.fdset.fdsIdx (ptr b .dst)) (w.fdset.fdsIdx (ptr b .inc)) (w.fdset.fdMax - 1)) := by
    intro cl w2 h2
    rw [reset_slots h2, hslots1, hidx]
  unfold poolRemoveConn at h
  simp only [remove_ends hh hk s, Option.bind_eq_bind, Option.bind_some] at h
  rw [show poolResetConnEnd .poll w0 (ptr b .dst) true = some w1 from h1, Option.bind_some] at h
  split at h
  · simp only [Option.bind_eq_some_iff, Option.some.injEq] at h
    obtain ⟨w2, h2, d, _, rfl⟩ := h
    have hs := second h2
    cases notify <;> exact hs
  · exact second h

/-- Slots do not move while a connection stays. -/
theorem keeps_fds_idx (T : Tabled .poll w) (hh : Held w b c) (k : Keeps .poll w w1 b c) (hh1 : Held w1 b c1)
    (t : Side) : w1.fdset.fdsIdx (ptr b t) = w.fdset.fdsIdx (ptr b t) := by
  obtain ⟨c2, hh2, _, hs⟩ := k.held
  have hc : c2 = c1 := Option.some.inj (hh2.block.symm.trans hh1.block)
  subst hc
  obtain ⟨x, hx, hfd, _⟩ := T.idx rfl (held_routed hh t)
  have hm : (marks w1)[w.fdset.fdsIdx (ptr b t)]? = some (x.fd, x.revents) := by
    rw [k.masked.marks, marks, List.getElem?_map, hx, Option.map_some]
  rw [marks, List.getElem?_map] at hm
  obtain ⟨y, hy, hxy⟩ := Option.map_eq_some_iff.mp hm
  refine fds_idx_eq k.tabled (held_routed hh1 t) hy ?_
  rw [hs t, ← hfd]
  exact congrArg Prod.fst hxy

theorem cleared_marks (T : Tabled .poll w) (hh : Held w b c) (h : Cleared .poll cnf w w' b c) :
    marks w' = swapRemove (swapRemove (marks w) (w.fdset.fdsIdx (ptr b .dst)))
      (clientSlot (w.fdset.fdsIdx (ptr b .dst)) (w.fdset.fdsIdx (ptr b .inc)) ((marks w).length - 1)) := by
  obtain ⟨w1, c1, s, notify, w2, k, hh1, h2, hm⟩ := h.steps
  have hlen : w1.fdset.fdMax = (marks w).length := by
    rw [← k.masked.marks]
    simp [marks, FdSet.fdMax]
  rw [hm.marks, marks, remove_slots k.tabled hh1 h2, swapRemove_map, swapRemove_map, keeps_fds_idx T hh k hh1,
    keeps_fds_idx T hh k hh1, hlen]
  exact congrArg (fun l => swapRemove (swapRemove l _) _) k.masked.marks

theorem passed_over_eq (T : Tabled .poll w) (hh : Held w b c) (s : Side) :
    passedOver w (w.fdset.fdsIdx (ptr b s)) =
      (moved (s = .dst) (w.fdset.fdsIdx (ptr b s)) (w.fdset.fdsIdx (ptr b s.other))
        ((marks w).length - 1)).filter (w.fdset.fdsIdx (ptr b s) < ·) := by
  obtain ⟨x, hx, hfd, _⟩ := T.idx rfl (held_routed hh s)
  have hlen : w.fdset.fdMax = (marks w).length := by simp [marks, FdSet.fdMax]
  have hside : decide (ptr b s.other = incPtr (ptr b s.other).block) = decide (s = .dst) := by
    cases s <;> simp [ptr, incPtr, dstPtr, Side.other, poolEndSize]
  rw [passedOver, hx, Option.bind_some, hfd, hh.route s, Option.map_some, Option.getD_some, hside, hlen]

/-- What the removal of a connection takes from the ready slots ahead of one of its own. -/
theorem cleared_ready (T : Tabled .poll w) (hh : Held w b c) (s : Side) (h : Cleared .poll cnf w w' b c) :
    readyFrom w (w.fdset.fdsIdx (ptr b s) + 1) = readyFrom w' (w.fdset.fdsIdx (ptr b s) + 1) +
      (passedOver w (w.fdset.fdsIdx (ptr b s))).countP (readyAt w) := by
  have hlt : ∀ t, w.fdset.fdsIdx (ptr b t) < (marks w).length := by
    intro t
    obtain ⟨x, hx, _⟩ := T.idx rfl (held_routed hh t)
    simpa [marks] using (List.getElem?_eq_some_iff.mp hx).1
  have hne : w.fdset.fdsIdx (ptr b .inc) ≠ w.fdset.fdsIdx (ptr b .dst) := by
    intro he
    obtain ⟨x, hx, hxfd, _⟩ := T.idx rfl (held_routed hh .inc)
    obtain ⟨y, hy, hyfd, _⟩ := T.idx rfl (held_routed hh .dst)
    rw [he, hy, Option.some.injEq] at hx
    exact held_socks hh (hxfd.symm.trans (hx ▸ hyfd))
  have hready : readyAt w = fun j => ((marks w)[j]?).any fun m => m.2 ≠ 0 := funext (ready_at_marks w)
  rw [passed_over_eq T hh, ready_from_marks, ready_from_marks, cleared_marks T hh h, hready]
  cases s with
  | dst => exact removed_server (hlt .dst) (hlt .inc) hne
  | inc => exact removed_client (hlt .inc) (hlt .dst) (Ne.symm hne)

theorem grown_ready (hg : Grown w w' fd fd') (d : Nat) : readyFrom w' d = readyFrom w d := by
  rw [ready_from_marks, ready_from_marks, hg.marks, List.drop_append, List.countP_append]
  have hzero : (([(fd, 0), (fd', 0)] : List (Fd × BitVec 32)).drop (d - (marks w).length)).countP
      (fun m => m.2 ≠ 0) = 0 := by
    rw [List.countP_eq_zero]
    intro m hm
    have hm := List.mem_of_mem_drop hm
    simp only [List.mem_cons, List.not_mem_nil, or_false] at hm
    rcases hm with rfl | rfl <;> simp
  rw [hzero, Nat.add_zero]

theorem ready_from_succ (hx : w.fdset.pollfds[i]? = some x) :
    readyFrom w i = readyFrom w (i + 1) + if x.revents ≠ 0 then 1 else 0 := by
  obtain ⟨hi, hget⟩ := List.getElem?_eq_some_iff.mp hx
  rw [readyFrom, readyFrom, List.drop_eq_getElem_cons hi, List.countP_cons, hget]
  simp

theorem ready_slot (h : readyAt w i = true) : ∃ x, w.fdset.pollfds[i]? = some x ∧ x.revents ≠ 0 := by
  unfold readyAt at h
  cases hx : w.fdset.pollfds[i]? with
  | none => simp [hx] at h
  | some x => exact ⟨x, rfl, by simpa [hx] using h⟩

theorem slot_routed (R : Ready .poll w) (hx : w.fdset.pollfds[i]? = some x) (hi : 1 ≤ i) :
    w.routeMap x.fd ≠ none := by
  obtain ⟨b, c, s, h, _, hs⟩ := R.slot_conn hx (by omega)
  rw [hs, h.2]
  simp

end table

section steps
variable {rel : Nat → Nat → Prop} {st st' : EventLoop}

/-- Writing for the slot at `i`: no ready slot is lost, or the connection is. -/
theorem writable_ready (R : Ready .poll w) (hx : w.fdset.pollfds[i]? = some x) (hi : 1 ≤ i)
    (h : handleWritable .poll cnf w x.fd revents next env = some st) :
    st.cursor = next ∧ Ready .poll st.world ∧ st.world.fdset.fdMax ≤ w.fdset.fdMax ∧
      (readyFrom st.world (i + 1) = readyFrom w (i + 1) ∨
        revents &&& poolFdWrite ≠ 0 ∧ exposedAt w i = true ∧ readyFrom w (i + 1) =
          readyFrom st.world (i + 1) + (passedOver w i).countP (readyAt w)) := by
  obtain ⟨hcur, R', b, c, s, hh, hfd, _, hslots, hidle⟩ := writable_slots R (slot_routed R hx hi) h
  have hidx := fds_idx_eq R.toTabled (held_routed hh s) hx hfd
  have hmax : ∀ {w1}, Cleared .poll cnf w w1 b c → w.fdset.fdMax = w1.fdset.fdMax + 2 := by
    intro w1 hc
    have hlen := (cleared_fds hc).length_eq
    rw [Descriptors.Tabled.fd_max R.toTabled, Descriptors.Tabled.fd_max hc.tabled, hlen]
    rfl
  have hsame : ∀ {w1}, marks w1 = marks w → w1.fdset.fdMax = w.fdset.fdMax := by
    intro w1 hm
    rw [Descriptors.fd_max_marks, hm, ← Descriptors.fd_max_marks]
  have hlost : ∀ {w1}, Cleared .poll cnf w w1 b c → readyFrom st.world (i + 1) = readyFrom w1 (i + 1) →
      readyFrom st.world (i + 1) = readyFrom w (i + 1) ∨
        revents &&& poolFdWrite ≠ 0 ∧ exposedAt w i = true ∧ readyFrom w (i + 1) =
          readyFrom st.world (i + 1) + (passedOver w i).countP (readyAt w) := by
    intro w1 hc hw1
    by_cases hsafe : revents &&& poolFdWrite = 0 ∨ ¬ Exposed (side c s)
    · obtain ⟨stats, hw⟩ := hidle hsafe
      rw [hw]
      exact Or.inl rfl
    · rw [not_or, not_not] at hsafe
      refine Or.inr ⟨hsafe.1, ?_, ?_⟩
      · rw [exposedAt, hx, Option.any_some, hfd, end_at hh (R.kinds hh), Option.any_some, decide_eq_true_eq]
        exact hsafe.2
      · rw [hw1, ← hidx]
        exact cleared_ready R.toTabled hh s hc
  cases hslots with
  | kept k =>
    refine ⟨hcur, R', Nat.le_of_eq (hsame k.masked.marks), Or.inl ?_⟩
    rw [ready_from_marks, ready_from_marks, k.masked.marks]
  | cleared hc =>
    have := hmax hc
    exact ⟨hcur, R', by omega, hlost hc rfl⟩
  | moved hc T hg =>
    have := hmax hc
    have hgrow : st.world.fdset.fdMax = _ := (Descriptors.fd_max_marks st.world).trans (congrArg List.length hg.marks)
    rw [List.length_append, ← Descriptors.fd_max_marks] at hgrow
    simp only [List.length_cons, List.length_nil] at hgrow
    exact ⟨hcur, R', by omega, hlost hc (grown_ready hg _)⟩

/-- How far the count may be from the number of ready slots ahead. -/
def Scan (rel : Nat → Nat → Prop) (st : EventLoop) : Prop :=
  match st.cursor with
  | .top count => Ready .poll st.world ∧ rel (readyFrom st.world 0) count
  | .slot idx count => Ready .poll st.world ∧ 1 ≤ idx ∧ rel (readyFrom st.world idx) count
  | .slotWrite idx count _ =>
    Ready .poll st.world ∧ 1 ≤ idx ∧ readyAt st.world idx = true ∧ rel (readyFrom st.world idx) count
  | .returned => True
  | _ => False

/-- What is left of the loop. -/
def stepsLeft (st : EventLoop) : Nat :=
  match st.cursor with
  | .top _ => 2 * st.world.fdset.fdMax
  | .slot idx _ => 2 * (st.world.fdset.fdMax - idx) + 1
  | .slotWrite idx _ _ => 2 * (st.world.fdset.fdMax - idx)
  | _ => 0

-- the count follows the slots ahead unless a ready one is passed over, and then it
-- can only be too high

theorem top_step (R : Ready .poll w) (hrel : rel (readyFrom w 0) count)
    (h : poolHandleEvents .poll cnf ⟨w, .top count⟩ env = some st')
    (hloss : LossFree ⟨w, .top count⟩ env ∨ ∀ a b n, a ≤ b → rel b n → rel a n) :
    Scan rel st' ∧ stepsLeft st' < 2 * w.fdset.fdMax := by
  simp only [poolHandleEvents] at h
  split at h
  · cases h
  · rename_i x hx
    have hpos : 0 < w.fdset.fdMax := (List.getElem?_eq_some_iff.mp hx).1
    split at h
    · obtain ⟨w1, _, rfl⟩ := Option.map_eq_some_iff.mp h
      exact ⟨trivial, show 0 < 2 * w.fdset.fdMax by omega⟩
    · rename_i hread
      rw [Option.some.injEq] at h
      subst h
      refine ⟨⟨R, Nat.le_refl 1, ?_⟩, show 2 * (w.fdset.fdMax - 1) + 1 < 2 * w.fdset.fdMax by omega⟩
      have hsucc : readyFrom w 0 = readyFrom w 1 + _ := ready_from_succ hx
      rcases hloss with hfree | hmono
      · have hzero : x.revents = 0 := by
          simp only [LossFree, hx, Option.all_some, decide_eq_true_eq] at hfree
          exact hfree.resolve_left hread
        rw [if_neg (not_not.mpr hzero)] at hsucc
        have hsame : readyFrom w 0 = readyFrom w 1 := by omega
        exact hsame ▸ hrel
      · exact hmono (readyFrom w 1) _ _ (by omega) hrel

theorem slot_step (R : Ready .poll w) (hidx : 1 ≤ idx) (hrel : rel (readyFrom w idx) count)
    (h : poolHandleEvents .poll cnf ⟨w, .slot idx count⟩ env = some st') :
    Scan rel st' ∧ stepsLeft st' < 2 * (w.fdset.fdMax - idx) + 1 := by
  simp only [poolHandleEvents] at h
  split at h
  · rw [Option.some.injEq] at h
    subst h
    exact ⟨trivial, Nat.succ_pos _⟩
  · split at h
    · cases h
    · rename_i x hx
      have hlt : idx < w.fdset.fdMax := (List.getElem?_eq_some_iff.mp hx).1
      have hsucc := ready_from_succ hx
      split at h
      · rename_i hzero
        rw [Option.some.injEq] at h
        subst h
        rw [if_neg (not_not.mpr hzero)] at hsucc
        have hsame : readyFrom w idx = readyFrom w (idx + 1) := by omega
        refine ⟨⟨R, by omega, hsame ▸ hrel⟩, ?_⟩
        show 2 * (w.fdset.fdMax - (idx + 1)) + 1 < 2 * (w.fdset.fdMax - idx) + 1
        omega
      · rename_i hrev
        rcases readable_kept R (slot_routed R hx hidx) h with hret | ⟨hcur, K, _⟩
        · unfold Scan stepsLeft
          rw [hret]
          exact ⟨trivial, Nat.succ_pos _⟩
        · have hmax : st'.world.fdset.fdMax = w.fdset.fdMax := by
            rw [Descriptors.fd_max_marks, K.masked.marks, ← Descriptors.fd_max_marks]
          have hready : readyAt st'.world idx = true := by
            rw [ready_at_marks, K.masked.marks, ← ready_at_marks, readyAt, hx]
            simpa using hrev
          unfold Scan stepsLeft
          rw [hcur]
          refine ⟨⟨K.ready, hidx, hready, ?_⟩, ?_⟩
          · rw [ready_from_marks, K.masked.marks, ← ready_from_marks]
            exact hrel
          · simp only [hmax]
            omega

theorem write_step (hpred : ∀ a n, rel (a + 1) n → rel a (n - 1)) (R : Ready .poll w) (hidx : 1 ≤ idx)
    (hready : readyAt w idx = true) (hrel : rel (readyFrom w idx) count)
    (h : poolHandleEvents .poll cnf ⟨w, .slotWrite idx count revents⟩ env = some st')
    (hloss : LossFree ⟨w, .slotWrite idx count revents⟩ env ∨ ∀ a b n, a ≤ b → rel b n → rel a n) :
    Scan rel st' ∧ stepsLeft st' < 2 * (w.fdset.fdMax - idx) := by
  obtain ⟨x, hx, hrev⟩ := ready_slot hready
  simp only [poolHandleEvents, hx] at h
  have hlt : idx < w.fdset.fdMax := (List.getElem?_eq_some_iff.mp hx).1
  have hsucc := ready_from_succ hx
  rw [if_pos hrev] at hsucc
  have hrel1 : rel (readyFrom w (idx + 1)) (count - 1) := hpred _ _ (hsucc ▸ hrel)
  obtain ⟨hcur, R', hmax, hcase⟩ := writable_ready R hx hidx h
  unfold Scan stepsLeft
  rw [hcur]
  refine ⟨⟨R', by omega, ?_⟩, ?_⟩
  · rcases hcase with heq | ⟨hbit, hexp, heq⟩
    · exact heq ▸ hrel1
    · rcases hloss with hfree | hmono
      · have hnone : (passedOver w idx).countP (readyAt w) = 0 := by
          rw [List.countP_eq_zero]
          intro j hj
          have hfree : ∀ j ∈ passedOver w idx, readyAt w j = false := hfree hbit hexp
          simp [hfree j hj]
        have hkept : readyFrom w (idx + 1) = readyFrom st'.world (idx + 1) := by omega
        exact hkept ▸ hrel1
      · exact hmono _ _ _ (by omega) hrel1
  · show 2 * (st'.world.fdset.fdMax - (idx + 1)) + 1 < 2 * (w.fdset.fdMax - idx)
    omega

/-- One step of the loop. -/
theorem scan_step (hpred : ∀ a n, rel (a + 1) n → rel a (n - 1)) (hs : Scan rel st)
    (h : poolHandleEvents .poll cnf st env = some st')
    (hloss : LossFree st env ∨ ∀ a b n, a ≤ b → rel b n → rel a n) :
    Scan rel st' ∧ stepsLeft st' < stepsLeft st := by
  obtain ⟨w, cursor⟩ := st
  cases cursor with
  | event evs => exact absurd hs id
  | eventWrite ev evs => exact absurd hs id
  | returned => cases h
  | top count =>
    obtain ⟨R, hrel⟩ := hs
    exact top_step R hrel h hloss
  | slot idx count =>
    obtain ⟨R, hidx, hrel⟩ := hs
    exact slot_step R hidx hrel h
  | slotWrite idx count revents =>
    obtain ⟨R, hidx, hready, hrel⟩ := hs
    exact write_step hpred R hidx hready hrel h hloss

/-- The count is right as long as nothing is passed over, so that there is a ready slot
ahead whenever it is not zero. -/
theorem exact_in_bounds (hs : Scan (· = ·) st) (env : EventEnv) : InBounds st env := by
  obtain ⟨w, cursor⟩ := st
  cases cursor with
  | slot idx count =>
    obtain ⟨_, _, hrel⟩ : Ready .poll w ∧ 1 ≤ idx ∧ readyFrom w idx = count := hs
    intro hcount
    by_contra hout
    have hnil : w.fdset.pollfds.drop idx = [] := List.drop_eq_nil_of_le (Nat.not_lt.mp hout)
    rw [readyFrom, hnil] at hrel
    exact hcount hrel.symm
  | event evs => trivial
  | eventWrite ev evs => trivial
  | top count => trivial
  | slotWrite idx count revents => trivial
  | returned => trivial

theorem scan_lt_step (hs : Scan (· < ·) st) (h : poolHandleEvents .poll cnf st env = some st') :
    Scan (· < ·) st' ∧ stepsLeft st' < stepsLeft st :=
  scan_step (fun a n hn => by omega) hs h (Or.inr fun a b n hab hn => Nat.lt_of_le_of_lt hab hn)

theorem scan_le_step (hs : Scan (· ≤ ·) st) (h : poolHandleEvents .poll cnf st env = some st') :
    Scan (· ≤ ·) st' ∧ stepsLeft st' < stepsLeft st :=
  scan_step (fun a n hn => by omega) hs h (Or.inr fun a b n hab hn => Nat.le_trans hab hn)

/-- The loop is past slot zero and has not returned. -/
def scanning : Cursor → Bool
  | .slot _ _ => true
  | .slotWrite _ _ _ => true
  | _ => false

/-- While the index is in the table and there is something to count, the loop can go on. -/
theorem calm_scan (cnf : Cnf) (hs : Scan (· < ·) st) (hc : scanning st.cursor = true)
    (hin : InBounds st calmEnv) :
    ∃ st', poolHandleEvents .poll cnf st calmEnv = some st' ∧ scanning st'.cursor = true := by
  obtain ⟨w, cursor⟩ := st
  cases cursor with
  | slot idx count =>
    obtain ⟨R, hidx, hrel⟩ : Ready .poll w ∧ 1 ≤ idx ∧ readyFrom w idx < count := hs
    have hcount : count ≠ 0 := by omega
    have hlt : idx < w.fdset.pollfds.length := hin hcount
    obtain ⟨x, hx⟩ : ∃ x, w.fdset.pollfds[idx]? = some x := ⟨_, List.getElem?_eq_getElem hlt⟩
    simp only [poolHandleEvents, hcount, hx, ↓reduceIte]
    split
    · exact ⟨_, rfl, rfl⟩
    · obtain ⟨w1, h1, _⟩ := calm_readable cnf R (fun _ => slot_routed R hx hidx)
        (show Cursor.slotWrite idx count (x.revents &&& x.events) ≠ .returned by simp)
      exact ⟨_, h1, rfl⟩
  | slotWrite idx count revents =>
    obtain ⟨R, hidx, hready, _⟩ : Ready .poll w ∧ 1 ≤ idx ∧ readyAt w idx = true ∧ _ := hs
    obtain ⟨x, hx, _⟩ := ready_slot hready
    obtain ⟨w1, h1, _⟩ := calm_writable cnf R (.slot (idx + 1) (count - 1)) (fun _ => slot_routed R hx hidx)
    refine ⟨⟨w1, .slot (idx + 1) (count - 1)⟩, ?_, rfl⟩
    simp only [poolHandleEvents, hx]
    exact h1
  | event evs => cases hc
  | eventWrite ev evs => cases hc
  | top count => cases hc
  | returned => cases hc

/-- With a count that is too high the loop can be led out of the table. -/
theorem too_high_fails (cnf : Cnf) (hs : Scan (· < ·) st) (hc : scanning st.cursor = true) :
    ∃ envs, ¬ Along (poolHandleEvents .poll cnf) InBounds st envs := by
  induction hn : stepsLeft st using Nat.strong_induction_on generalizing st with
  | _ n ih =>
    by_cases hin : InBounds st calmEnv
    · obtain ⟨st', h, hc'⟩ := calm_scan cnf hs hc hin
      obtain ⟨hs', hlt⟩ := scan_lt_step hs h
      obtain ⟨envs, hfail⟩ := ih _ (hn ▸ hlt) hs' hc' rfl
      exact ⟨_, not_along_after (exec_one h) hfail⟩
    · exact ⟨[calmEnv], fun ha => hin ha.1⟩

/-- A ready slot that is passed over leaves the count too high. -/
theorem passed_over_fails (cnf : Cnf) (hs : Scan (· ≤ ·) st) (hl : ¬ LossFree st env) :
    ∃ envs, ¬ Along (poolHandleEvents .poll cnf) InBounds st envs := by
  obtain ⟨w, cursor⟩ := st
  cases cursor with
  | top count =>
    obtain ⟨R, hrel⟩ : Ready .poll w ∧ readyFrom w 0 ≤ count := hs
    obtain ⟨x, hx, _⟩ := R.slot_zero
    have hpipe := hl
    simp only [LossFree, hx, Option.all_some, decide_eq_true_eq, not_or, not_not] at hpipe
    have hstep : poolHandleEvents .poll cnf ⟨w, .top count⟩ calmEnv = some ⟨w, .slot 1 count⟩ := by
      simp [poolHandleEvents, hx, hpipe.1]
    have hsucc : readyFrom w 0 = readyFrom w 1 + _ := ready_from_succ hx
    rw [if_pos hpipe.2] at hsucc
    have hhigh : Scan (· < ·) ⟨w, .slot 1 count⟩ := ⟨R, Nat.le_refl 1, show readyFrom w 1 < count by omega⟩
    obtain ⟨envs, hfail⟩ := too_high_fails cnf hhigh rfl
    exact ⟨_, not_along_after (exec_one hstep) hfail⟩
  | slotWrite idx count revents =>
    obtain ⟨R, hidx, hready, hrel⟩ : Ready .poll w ∧ 1 ≤ idx ∧ readyAt w idx = true ∧
      readyFrom w idx ≤ count := hs
    have hlost : ¬ (revents &&& poolFdWrite ≠ 0 → exposedAt w idx = true →
      ∀ j ∈ passedOver w idx, readyAt w j = false) := hl
    push Not at hlost
    obtain ⟨hbit, hexp, j, hj, hready'⟩ := hlost
    obtain ⟨x, hx, hrev⟩ := ready_slot hready
    obtain ⟨b, c, s, hh, hfd⟩ := R.served (slot_routed R hx hidx)
    have hown : Exposed (side c s) := by
      rw [exposedAt, hx, Option.any_some, hfd, end_at hh (R.kinds hh)] at hexp
      simpa using hexp
    obtain ⟨w1, h1, R1, _, hc⟩ := cut_writable cnf R (.slot (idx + 1) (count - 1)) hbit hh hown
    have hstep : poolHandleEvents .poll cnf ⟨w, .slotWrite idx count revents⟩ cutEnv =
        some ⟨w1, .slot (idx + 1) (count - 1)⟩ := by
      simp only [poolHandleEvents, hx, hfd]
      exact h1
    have hcleared := cleared_ready R.toTabled hh s hc
    rw [fds_idx_eq R.toTabled (held_routed hh s) hx hfd] at hcleared
    have hpos : 0 < (passedOver w idx).countP (readyAt w) :=
      List.countP_pos_iff.mpr ⟨j, hj, by simpa using hready'⟩
    have hsucc := ready_from_succ hx
    rw [if_pos hrev] at hsucc
    have hhigh : Scan (· < ·) ⟨w1, .slot (idx + 1) (count - 1)⟩ :=
      ⟨R1, by omega, show readyFrom w1 (idx + 1) < count - 1 by omega⟩
    obtain ⟨envs, hfail⟩ := too_high_fails cnf hhigh rfl
    exact ⟨_, not_along_after (exec_one hstep) hfail⟩
  | event evs => exact absurd trivial hl
  | eventWrite ev evs => exact absurd trivial hl
  | slot idx count => exact absurd trivial hl
  | returned => exact absurd trivial hl

theorem loss_free_of_bounds (hs : Scan (· ≤ ·) st)
    (h : ∀ envs, Along (poolHandleEvents .poll cnf) InBounds st envs) (envs : List EventEnv) :
    Along (poolHandleEvents .poll cnf) LossFree st envs := by
  induction envs generalizing st with
  | nil => trivial
  | cons env envs ih =>
    refine ⟨?_, fun st' hst => ih (scan_le_step hs hst).1 fun envs' => (h (env :: envs')).2 st' hst⟩
    by_contra hl
    obtain ⟨envs', hfail⟩ := passed_over_fails cnf hs hl
    exact hfail (h envs')

end steps

section start

theorem waited_tabled (T : Tabled .poll w) (revents : Fd → BitVec 32) :
    Tabled .poll (poolFdsWait w revents).1 := by
  have hfds : (poolFdsWait w revents).1.fdset.pollfds.map PollFd.fd = w.fdset.pollfds.map PollFd.fd := by
    simp [poolFdsWait]
  have hconn : connFds (poolFdsWait w revents).1 = connFds w := congrArg List.tail hfds
  refine ⟨T.entry, ?_, ?_, ?_, fun hp {b c s} h => ?_⟩
  · rw [hfds, hconn]
    exact T.slots
  · rw [hconn]
    exact T.nodup
  · rw [hconn]
    exact T.mem
  · obtain ⟨x, hx, hfd, hev⟩ := T.idx hp h
    refine ⟨{ x with revents := revents x.fd }, ?_, hfd, hev⟩
    simp only [poolFdsWait, List.getElem?_map]
    rw [hx]
    rfl

theorem waited_scan (D : Descriptors.DescriptorTable w) (hl : Live w) (hctl : w.routeMap w.ctlRecv = none)
    (revents : Fd → BitVec 32) : Scan (· = ·) (.waited w revents) := by
  refine ⟨⟨waited_tabled (D.tabled hctl) revents, fun fd q hq => ?_, ⟨hl.ctl, hl.routed⟩⟩, rfl⟩
  obtain ⟨b, c, s, hh, hfd, _⟩ := D.only hq
  exact ⟨b, c, s, ⟨hh.block, hh.route⟩, hfd⟩

end start

/-- The scan of what `poll ()` has reported takes at most two steps for each slot of the
table. Its index stays in the table as long as no ready slot can be passed over; if one
can, then with some outcomes of the calls the index runs out of the table. -/
theorem poll_scan_in_bounds (cnf : Cnf) (D : Descriptors.DescriptorTable w) (hl : Live w)
    (hctl : w.routeMap w.ctlRecv = none) (revents : Fd → BitVec 32) :
    (∀ envs, Along (poolHandleEvents .poll cnf) LossFree (.waited w revents) envs →
      Along (poolHandleEvents .poll cnf) InBounds (.waited w revents) envs) ∧
    ((∀ envs, Along (poolHandleEvents .poll cnf) InBounds (.waited w revents) envs) →
      ∀ envs, Along (poolHandleEvents .poll cnf) LossFree (.waited w revents) envs) ∧
    ∀ envs st, exec (poolHandleEvents .poll cnf) (.waited w revents) envs = some st →
      envs.length ≤ 2 * w.fdset.fdMax := by
  have hs := waited_scan D hl hctl revents
  have hle : Scan (· ≤ ·) (.waited w revents) := ⟨hs.1, Nat.le_of_eq hs.2⟩
  refine ⟨fun envs ha => ?_, loss_free_of_bounds hle, fun envs st h => ?_⟩
  · refine along_keeps (fun st env st' hs hfree h => (scan_step ?_ hs h (Or.inl hfree)).1)
      (fun st env hs _ => exact_in_bounds hs env) hs ha
    intro a n hn
    omega
  · have hleft : stepsLeft (.waited w revents) = 2 * w.fdset.fdMax := by
      simp [stepsLeft, EventLoop.waited, poolFdsWait, FdSet.fdMax]
    rw [← hleft]
    exact exec_length (fun st env st' hs h => scan_le_step hs h) hle h

section examples
open Registry RouterRun Descriptors

/-- The first server refuses, and the second client has sent something. -/
def refusedAndReady (fd : Fd) : BitVec 32 :=
  if fd = 7 then poolFdWrite else if fd = 8 then poolFdRead else 0

def refusedOnly (fd : Fd) : BitVec 32 := if fd = 6 then poolFdRead else if fd = 7 then poolFdWrite else 0

theorem first_table (h : exec (daemonStep .poll cnf ctrl) oneDaemon ops = some d) (hp : d.pools ≠ [])
    (hs : (firstPool d).shutdown = false) : DescriptorTable (firstPool d) ∧ Live (firstPool d) ∧
      (firstPool d).routeMap (firstPool d).ctlRecv = none := by
  have hd : TablesOrderly .poll d :=
    exec_invariant (fun _ _ _ => tables_orderly_step) (tables_orderly_init .poll (by simp) (by decide) Router.init) h
  have R := first_ready h hp hs
  obtain ⟨p, ps, hcons⟩ := List.exists_cons_of_ne_nil hp
  have hfirst : firstPool d = d.world p := by rw [firstPool, hcons]; rfl
  have S : Sized (firstPool d) := hfirst ▸ (hd.2 0 p (by rw [hcons]; rfl)).2
  refine ⟨descriptor_table R.toTabled R.paired S, R.live, ?_⟩
  by_contra hr
  exact (List.nodup_cons.mp R.nodup).1 (R.mem.mpr hr)

theorem two_clients_run :
    exec (daemonStep .poll leastConns noWdog) oneDaemon twoClients = some (polled twoClients) :=
  exec_getD oneDaemon (by decide +kernel)

/-- With its own two slots the removal takes those of the second client behind the
index, which then runs out of the table. -/
theorem poll_scan_leaves_table :
    exec (daemonStep .poll leastConns noWdog) oneDaemon twoClients = some (polled twoClients) ∧
    DescriptorTable (firstPool (polled twoClients)) ∧
    ¬ Along (poolHandleEvents .poll leastConns) InBounds (.waited (firstPool (polled twoClients)) refusedAndReady)
      [refusedEnv, refusedEnv, refusedEnv, refusedEnv, refusedEnv] :=
  ⟨two_clients_run, (first_table two_clients_run (by decide +kernel) (by decide +kernel)).1, by decide +kernel⟩

theorem poll_scan_in_bounds_refused :
    Along (poolHandleEvents .poll leastConns) LossFree (.waited (firstPool (polled twoClients)) refusedOnly)
      [refusedEnv, refusedEnv, refusedEnv, refusedEnv, refusedEnv, refusedEnv] ∧
    Along (poolHandleEvents .poll leastConns) InBounds (.waited (firstPool (polled twoClients)) refusedOnly)
      [refusedEnv, refusedEnv, refusedEnv, refusedEnv, refusedEnv, refusedEnv] := by
  obtain ⟨D, hl, hctl⟩ := first_table two_clients_run (by decide +kernel) (by decide +kernel)
  have hfree : Along (poolHandleEvents .poll leastConns) LossFree
      (.waited (firstPool (polled twoClients)) refusedOnly)
      [refusedEnv, refusedEnv, refusedEnv, refusedEnv, refusedEnv, refusedEnv] := by decide +kernel
  exact ⟨hfree, (poll_scan_in_bounds leastConns D hl hctl refusedOnly).1 _ hfree⟩

end examples

end Glb.Proofs.PollScan
