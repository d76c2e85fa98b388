import Glb.Proofs.FdTable
import Glb.Proofs.Registry
import Mathlib.Data.List.Nodup

namespace Glb.Proofs.Drop
open Function Lib.Run PoolFrame Ownership FdTable Registry RouterRun

variable {build : Build} {cnf : Cnf} {w w' w1 : World} {b : Nat} {c : Conn} {s : Side} {fd : Fd}
variable {tag : Nat → Bool} {hdr : Nat → SockAddr} {a : SockAddr}

/-- A pool between two events: the table is in order, each entry of `route_map`
belongs to a connection with both ends open and inside the map. -/
structure Intact (build : Build) (w : World) : Prop extends Tabled build w where
  paired : Paired w
  range : ∀ {fd}, w.routeMap fd ≠ none → 0 ≤ fd ∧ fd < poolMaxFd
  live : ∀ {fd}, w.routeMap fd ≠ none → w.isOpen fd = true

theorem paired_held (hp : Paired w) (h : Routed w b c s) : Held w b c := by
  obtain ⟨b', c', s', hh, hs⟩ := hp _ _ h.2
  obtain ⟨rfl, rfl, _⟩ := h.unique (held_routed hh s') hs
  exact hh

/-- The descriptors of two connections differ. -/
theorem held_apart (hh : Held w b c) (hh' : Held w b' c') (hb : b' ≠ b) (s : Side) :
    (side c' s).sock ≠ c.inc.sock ∧ (side c' s).sock ≠ c.dst.sock := by
  constructor
  · intro he
    exact hb ((held_routed hh' s).unique (held_routed hh .inc) he).1
  · intro he
    exact hb ((held_routed hh' s).unique (held_routed hh .dst) he).1

/-- Taking the descriptors of one connection out of the map leaves all others. -/
theorem held_unroute_iff (hh : Held w b c)
    (hm : w1.routeMap = update (update w.routeMap c.dst.sock none) c.inc.sock none)
    (hheap : ∀ b', b' ≠ b → w1.heap b' = w.heap b') (hb : ∀ c', w1.heap b = some c' → c' = c) :
    Held w1 b' c' ↔ b' ≠ b ∧ Held w b' c' := by
  constructor
  · intro hh'
    have hne : b' ≠ b := by
      rintro rfl
      have hroute := hh'.route .inc
      rw [hb c' hh'.block, hm, unrouted_socks] at hroute
      cases hroute
    refine ⟨hne, (hheap b' hne).symm.trans hh'.block, fun t => ?_⟩
    have hroute := hh'.route t
    rw [hm] at hroute
    exact update_none (update_none hroute)
  · rintro ⟨hne, hh'⟩
    refine ⟨(hheap b' hne).trans hh'.block, fun t => ?_⟩
    obtain ⟨hi, hd⟩ := held_apart hh hh' hne t
    rw [hm, update_of_ne hi, update_of_ne hd]
    exact hh'.route t

/-- Taking the descriptors of one connection out of the map leaves all others paired. -/
theorem paired_unroute (hp : Paired w) (hh : Held w b c)
    (hm : w1.routeMap = update (update w.routeMap c.dst.sock none) c.inc.sock none)
    (hiff : ∀ {b' c'}, Held w1 b' c' ↔ b' ≠ b ∧ Held w b' c') : Paired w1 := by
  intro fd q hq
  rw [hm] at hq
  rcases update_eq_some hq with ⟨_, hx⟩ | ⟨hni, hq⟩
  · cases hx
  rcases update_eq_some hq with ⟨_, hx⟩ | ⟨hnd, hq⟩
  · cases hx
  obtain ⟨b1, c1, s, hh1, rfl⟩ := hp fd q hq
  refine ⟨b1, c1, s, hiff.mpr ⟨?_, hh1⟩, rfl⟩
  rintro rfl
  have hc : c1 = c := Option.some.inj (hh1.block.symm.trans hh.block)
  subst hc
  cases s with
  | inc => exact hni rfl
  | dst => exact hnd rfl

/-- What one removal does to descriptors and memory. -/
structure Removed (w w1 : World) (b : Nat) (c : Conn) (full : Bool) : Prop where
  routes : ∀ x, w1.routeMap x = if x = c.inc.sock ∨ x = c.dst.sock then none else w.routeMap x
  opens : ∀ x, w1.isOpen x =
    if (full = true ∧ x = c.inc.sock) ∨ x = c.dst.sock then false else w.isOpen x
  others : ∀ b', b' ≠ b → w1.heap b' = w.heap b'
  block : ∀ c', w1.heap b = some c' → c' = c

/-- Whether `pool_remove_conn` on this side cleans up fully. -/
def fullAt (c : Conn) (s : Side) : Bool := s = .inc ∨ c.dst.kind ≠ .incomplete

theorem removed_spec (hh : Held w b c) (hk : Kinds c) (s : Side)
    (h : poolRemoveConn build cnf w (side c s).sock false = some w1) :
    Removed w w1 b c (fullAt c s) := by
  have hbare := remove_spec hh hk s h
  have hroutes : ∀ x, w1.routeMap x = if x = c.inc.sock ∨ x = c.dst.sock then none else w.routeMap x := by
    have hmap : w1.routeMap = update (update w.routeMap c.dst.sock none) c.inc.sock none := by
      have heq := congrArg (fun w => w.routeMap) hbare
      split at heq <;> exact heq
    intro x
    rw [hmap]
    by_cases h1 : x = c.inc.sock <;> by_cases h2 : x = c.dst.sock <;> simp [update_apply, h1, h2]
  by_cases hf : s = .inc ∨ c.dst.kind ≠ .incomplete
  · have hft : fullAt c s = true := by simpa [fullAt] using hf
    rw [if_pos hf] at hbare
    have hopens : w1.isOpen = update (update w.isOpen c.dst.sock false) c.inc.sock false :=
      congrArg (fun w => w.isOpen) hbare
    have hheap : w1.heap = update w.heap b none := congrArg (fun w => w.heap) hbare
    refine ⟨hroutes, ?_, ?_, ?_⟩
    · intro x
      rw [hopens]
      by_cases h1 : x = c.inc.sock <;> by_cases h2 : x = c.dst.sock <;>
        simp [update_apply, h1, h2, hft]
    · intro b' hb
      rw [hheap, update_of_ne hb]
    · intro c' hc
      rw [hheap, update_self] at hc
      cases hc
  · have hft : fullAt c s = false := by simpa [fullAt] using hf
    rw [if_neg hf] at hbare
    have hopens : w1.isOpen = update w.isOpen c.dst.sock false := congrArg (fun w => w.isOpen) hbare
    have hheap : w1.heap = w.heap := congrArg (fun w => w.heap) hbare
    refine ⟨hroutes, ?_, ?_, ?_⟩
    · intro x
      rw [hopens]
      by_cases h2 : x = c.dst.sock <;> simp [h2, hft]
    · intro b' _
      rw [hheap]
    · intro c' hc
      rw [hheap, hh.block] at hc
      exact (Option.some.inj hc).symm

theorem Removed.map (hr : Removed w w1 b c full) :
    w1.routeMap = update (update w.routeMap c.dst.sock none) c.inc.sock none := by
  funext x
  rw [hr.routes]
  by_cases h1 : x = c.inc.sock <;> by_cases h2 : x = c.dst.sock <;> simp [update_apply, h1, h2]

theorem Removed.held_iff (hr : Removed w w1 b c full) (hh : Held w b c) :
    Held w1 b' c' ↔ b' ≠ b ∧ Held w b' c' := held_unroute_iff hh hr.map hr.others hr.block

/-- An unconnected server end whose descriptor the scan meets first. -/
def halfClosed (c : Conn) : Bool := c.dst.kind = .incomplete ∧ c.dst.sock < c.inc.sock

/-- The connections in the blocks with a tag were removed, all others were not
touched. -/
structure SweptOut (tag : Nat → Bool) (w w' : World) : Prop where
  rest : ∀ x, w.routeMap x = none → w'.routeMap x = none ∧ w'.isOpen x = w.isOpen x
  kept : ∀ {b c}, Held w b c → tag b = false →
    Held w' b c ∧ ∀ s, w'.isOpen (side c s).sock = w.isOpen (side c s).sock
  swept : ∀ {b c}, Held w b c → tag b = true →
    (∀ s, w'.routeMap (side c s).sock = none) ∧ w'.isOpen c.dst.sock = false ∧
      w'.isOpen c.inc.sock = (halfClosed c && w.isOpen c.inc.sock)

theorem SweptOut.step (hr : Removed w w1 b c (!halfClosed c)) (hh : Held w b c) (ht : tag b = true)
    (hs : SweptOut tag w1 w') : SweptOut tag w w' := by
  have apart : ∀ {b' c'}, Held w b' c' → b' ≠ b → ∀ s, w1.isOpen (side c' s).sock = w.isOpen (side c' s).sock := by
    intro b' c' hh' hb s
    obtain ⟨h1, h2⟩ := held_apart hh hh' hb s
    rw [hr.opens, if_neg (by simp [h1, h2])]
  refine ⟨?_, ?_, ?_⟩
  · intro x hx
    have h1 : ∀ s, x ≠ (side c s).sock := by
      intro s he
      rw [he, hh.route s] at hx
      cases hx
    have hi : x ≠ c.inc.sock := h1 .inc
    have hd : x ≠ c.dst.sock := h1 .dst
    have hx1 : w1.routeMap x = none := by rw [hr.routes, if_neg (by simp [hi, hd]), hx]
    obtain ⟨hr', ho'⟩ := hs.rest x hx1
    exact ⟨hr', ho'.trans (by rw [hr.opens, if_neg (by simp [hi, hd])])⟩
  · intro b' c' hh' ht'
    have hb : b' ≠ b := by
      intro he
      rw [he, ht] at ht'
      cases ht'
    obtain ⟨hk, ho⟩ := hs.kept ((hr.held_iff hh).mpr ⟨hb, hh'⟩) ht'
    exact ⟨hk, fun s => (ho s).trans (apart hh' hb s)⟩
  · intro b' c' hh' ht'
    by_cases hb : b' = b
    · subst hb
      have hc : c' = c := Option.some.inj (hh'.block.symm.trans hh.block)
      subst hc
      have hnone : ∀ s, w1.routeMap (side c' s).sock = none := by
        intro s
        rw [hr.routes]
        cases s <;> simp [side]
      have hsock := held_socks hh
      refine ⟨fun s => (hs.rest _ (hnone s)).1, ?_, ?_⟩
      · refine (hs.rest _ (hnone .dst)).2.trans ?_
        simp [hr.opens, side]
      · refine (hs.rest _ (hnone .inc)).2.trans ?_
        cases hf : halfClosed c' <;> simp [hr.opens, side, hsock, hf]
    · obtain ⟨hn, hd, hi⟩ := hs.swept ((hr.held_iff hh).mpr ⟨hb, hh'⟩) ht'
      have ha : w1.isOpen c'.inc.sock = w.isOpen c'.inc.sock := apart hh' hb .inc
      exact ⟨hn, hd, by rw [hi, ha]⟩

/-- One more descriptor is behind the scan. -/
theorem count_from (l : List Int) (k : Int) :
    l.countP (fun x => k ≤ x) = l.countP (fun x => k + 1 ≤ x) + l.count k := by
  induction l with
  | nil => rfl
  | cons x l ih =>
    simp only [List.countP_cons, List.count_cons, ih, decide_eq_true_eq, beq_iff_eq]
    split_ifs <;> omega

/-- What a scan relies on when it comes to `fd`. A tagged connection is removed at
the first of its descriptors, so that both are still ahead. -/
structure Scanning (build : Build) (tag : Nat → Bool) (fd : Int) (w : World) : Prop
    extends Tabled build w where
  paired : Paired w
  range : ∀ {fd}, w.routeMap fd ≠ none → 0 ≤ fd ∧ fd < poolMaxFd
  ahead : ∀ {b c}, Held w b c → tag b = true → ∀ s, fd ≤ (side c s).sock

/-- The entries of `route_map` that are still ahead. -/
def remaining (fd : Int) (w : World) : Int := (connFds w).countP (fun x => fd ≤ x)

theorem Scanning.done (S : Scanning build tag fd w) (h0 : remaining fd w = 0) : SweptOut tag w w := by
  have hnone : ∀ x ∈ connFds w, ¬ fd ≤ x := by
    have hz : (connFds w).countP (fun x => fd ≤ x) = 0 := Int.ofNat.inj h0
    simpa [List.countP_eq_zero] using hz
  refine ⟨fun x hx => ⟨hx, rfl⟩, fun hh _ => ⟨hh, fun _ => rfl⟩, fun hh ht => ?_⟩
  exact absurd (S.ahead hh ht .inc) (hnone _ (S.routed_mem (held_routed hh .inc)))

theorem Scanning.at_end (S : Scanning build tag poolMaxFd w) : remaining poolMaxFd w = 0 := by
  have hz : (connFds w).countP (fun x => (poolMaxFd : Int) ≤ x) = 0 := by
    rw [List.countP_eq_zero]
    intro x hx
    simpa using (S.range (S.mem.mp hx)).2
  exact congrArg Int.ofNat hz

/-- Nothing at `fd` is tagged. -/
theorem Scanning.pass (S : Scanning build tag fd w)
    (h : ∀ {b c s}, Held w b c → tag b = true → (side c s).sock ≠ fd) :
    Scanning build tag (fd + 1) w := by
  refine ⟨S.toTabled, S.paired, S.range, ?_⟩
  intro b c hh ht s
  have hle := S.ahead hh ht s
  exact Int.add_one_le_of_lt (lt_of_le_of_ne hle (Ne.symm (h hh ht)))

theorem Scanning.count (S : Scanning build tag fd w) :
    remaining fd w = remaining (fd + 1) w + if w.routeMap fd = none then 0 else 1 := by
  have hnd : (connFds w).Nodup := (List.nodup_cons.mp S.nodup).2
  have hstep := count_from (connFds w) fd
  unfold remaining
  split
  · rename_i hfd
    have hnot : fd ∉ connFds w := fun hm => S.mem.mp hm hfd
    rw [List.count_eq_zero_of_not_mem hnot] at hstep
    omega
  · rename_i hfd
    rw [List.count_eq_one_of_mem hnd (S.mem.mpr hfd)] at hstep
    omega

/-- A tagged connection is met at its first descriptor and removed. -/
theorem Scanning.remove (cnf : Cnf) (S : Scanning build tag (side c s).sock w) (hh : Held w b c)
    (ht : tag b = true) :
    ∃ w1, poolRemoveConn build cnf w (side c s).sock false = some w1 ∧
      fullAt c s = !halfClosed c ∧ Scanning build tag ((side c s).sock + 1) w1 ∧
      remaining (side c s).sock w = remaining ((side c s).sock + 1) w1 + 2 := by
  obtain ⟨w1, h1, T1, hperm⟩ := remove_tabled cnf S.toTabled hh s false
  have hr := removed_spec hh (S.kinds (held_routed hh s)) s h1
  have hle := S.ahead hh ht
  have hlei : (side c s).sock ≤ c.inc.sock := hle .inc
  have hled : (side c s).sock ≤ c.dst.sock := hle .dst
  have hne := held_socks hh
  have hfull : fullAt c s = !halfClosed c := by
    cases s with
    | inc =>
      have hlt : ¬ c.dst.sock < c.inc.sock := Int.not_lt.mpr hled
      simp [fullAt, halfClosed, hlt]
    | dst =>
      have hle' : c.dst.sock ≤ c.inc.sock := hlei
      have hlt : c.dst.sock < c.inc.sock := lt_of_le_of_ne hle' (Ne.symm hne)
      simp [fullAt, halfClosed, hlt]
  refine ⟨w1, h1, hfull, ⟨T1, paired_unroute S.paired hh hr.map (hr.held_iff hh), ?_, ?_⟩, ?_⟩
  · intro x hx
    rw [hr.routes] at hx
    split at hx
    · exact absurd rfl hx
    · exact S.range hx
  · intro b' c' hh' ht' s'
    obtain ⟨hb, hh0⟩ := (hr.held_iff hh).mp hh'
    have hle' := S.ahead hh0 ht' s'
    have hne' : (side c' s').sock ≠ (side c s).sock := by
      intro he
      exact hb ((held_routed hh0 s').unique (held_routed hh s) he).1
    exact Int.add_one_le_of_lt (lt_of_le_of_ne hle' (Ne.symm hne'))
  · -- both descriptors were ahead, and neither is among those left
    have hn1 : (side c s).sock ∉ connFds w1 := by
      intro hm
      refine T1.mem.mp hm ?_
      rw [hr.routes]
      cases s <;> simp [side]
    have hstep : remaining (side c s).sock w1 = remaining ((side c s).sock + 1) w1 := by
      unfold remaining
      rw [count_from, List.count_eq_zero_of_not_mem hn1, Nat.add_zero]
    rw [← hstep]
    unfold remaining
    rw [hperm.countP_eq]
    simp only [List.countP_cons, hlei, hled, decide_true, ↓reduceIte]
    push_cast
    exact Int.add_assoc _ 1 1

/-- What the scan comes to at `fd`: nothing, a connection that it leaves, or one that it
removes. Behind it, the count is again what is ahead. -/
inductive Visit (build : Build) (cnf : Cnf) (tag : Nat → Bool) (fd : Nat) (w : World) : Prop
  | free (hfd : w.routeMap fd = none) (S : Scanning build tag (fd + 1 : Nat) w)
      (hrem : remaining fd w = remaining (fd + 1 : Nat) w) : Visit build cnf tag fd w
  | left {b : Nat} {c : Conn} {s : Side} (hr : Routed w b c s) (hk : Kinds c)
      (hs : (fd : Int) = (side c s).sock) (hfd : w.routeMap fd = some (ptr b s.other)) (ht : tag b = false)
      (S : Scanning build tag (fd + 1 : Nat) w) (hrem : remaining fd w - 1 = remaining (fd + 1 : Nat) w) :
      Visit build cnf tag fd w
  | removed {b : Nat} {c : Conn} {s : Side} {w1 : World} (hr : Routed w b c s) (hk : Kinds c)
      (hs : (fd : Int) = (side c s).sock) (hfd : w.routeMap fd = some (ptr b s.other)) (ht : tag b = true)
      (h1 : poolRemoveConn build cnf w fd false = some w1) (hfull : fullAt c s = !halfClosed c)
      (S : Scanning build tag (fd + 1 : Nat) w1) (hrem : remaining fd w - 2 = remaining (fd + 1 : Nat) w1) :
      Visit build cnf tag fd w

theorem Scanning.visit (cnf : Cnf) {fd : Nat} (S : Scanning build tag fd w) : Visit build cnf tag fd w := by
  have hcount := S.count
  have hnext : ((fd + 1 : Nat) : Int) = fd + 1 := rfl
  cases hfd : w.routeMap fd with
  | none =>
    refine .free hfd ?_ (by simpa [hfd] using hcount)
    rw [hnext]
    refine S.pass fun hh ht he => ?_
    rw [← he, hh.route] at hfd
    cases hfd
  | some p =>
    obtain ⟨b, c, s, hr, hk, rfl, hs⟩ := S.entry hfd
    have hh := paired_held S.paired hr
    cases ht : tag b with
    | false =>
      refine .left hr hk hs hfd ht ?_ ?_
      · rw [hnext]
        refine S.pass fun {b' c' s'} hh' ht' he => ?_
        have hb := (hr.unique (held_routed hh' s') (hs.symm.trans he.symm)).1
        rw [hb, ht'] at ht
        cases ht
      · rw [hcount, if_neg (by simp [hfd]), hnext]
        exact Int.add_sub_cancel _ 1
    | true =>
      rw [hs] at S
      obtain ⟨w1, h1, hfull, S1, hrem⟩ := S.remove cnf hh ht
      refine .removed hr hk hs hfd ht (hs ▸ h1) hfull ?_ ?_
      · rwa [hnext, hs]
      · rw [hnext, hs, hrem]
        exact Int.add_sub_cancel _ 2

/-- The rule for the scans: they return, and what holds when nothing is left to remove
and is carried back over each removal holds of the whole scan. -/
theorem scan_rule {hit : World → EndPtr → Option Bool} {R : World → World → Prop}
    (hhit : ∀ {w b c s}, Routed w b c s → Kinds c → hit w (ptr b s.other) = some (tag b))
    (hdone : ∀ {w fd}, Scanning build tag fd w → remaining fd w = 0 → R w w)
    (hstep : ∀ {w w1 w' b c s}, Held w b c → Kinds c → tag b = true → fullAt c s = !halfClosed c →
      poolRemoveConn build cnf w (side c s).sock false = some w1 → R w1 w' → R w w')
    (n fd : Nat) (hn : n + fd = poolMaxFd) (S : Scanning build tag fd w) :
    ∃ w', scanLoop build cnf hit n fd (remaining fd w) w = some w' ∧ R w w' := by
  induction n generalizing fd w with
  | zero =>
    have hfd : fd = poolMaxFd := by omega
    subst hfd
    have h0 := S.at_end
    exact ⟨w, by simp [scanLoop, h0], hdone S h0⟩
  | succ n ih =>
    unfold scanLoop
    by_cases h0 : remaining fd w = 0
    · exact ⟨w, by simp [h0], hdone S h0⟩
    · rw [if_neg h0]
      cases S.visit cnf with
      | free hfd S' hrem =>
        obtain ⟨w', h, hR⟩ := ih (fd + 1) (by omega) S'
        exact ⟨w', by simpa only [hfd, hrem] using h, hR⟩
      | left hr hk _ hfd ht S' hrem =>
        obtain ⟨w', h, hR⟩ := ih (fd + 1) (by omega) S'
        refine ⟨w', ?_, hR⟩
        simpa only [hfd, hhit hr hk, ht, Option.bind_eq_bind, Option.bind_some, Bool.false_eq_true, ↓reduceIte,
          hrem] using h
      | removed hr hk hs hfd ht h1 hfull S1 hrem =>
        obtain ⟨w', h, hR⟩ := ih (fd + 1) (by omega) S1
        refine ⟨w', ?_, hstep (paired_held S.paired hr) hk ht hfull (hs ▸ h1) hR⟩
        simpa only [hfd, hhit hr hk, ht, Option.bind_eq_bind, Option.bind_some, ↓reduceIte, h1, hrem] using h

/-- The scan removes what is tagged. -/
theorem scan_swept (cnf : Cnf) {hit : World → EndPtr → Option Bool}
    (hhit : ∀ {w b c s}, Routed w b c s → Kinds c → hit w (ptr b s.other) = some (tag b))
    (n fd : Nat) (hn : n + fd = poolMaxFd) (S : Scanning build tag fd w) :
    ∃ w', scanLoop build cnf hit n fd (remaining fd w) w = some w' ∧ SweptOut tag w w' := by
  refine scan_rule hhit (fun S h0 => S.done h0) ?_ n fd hn S
  intro w w1 w' b c s hh hk ht hfull h1 hsw
  exact hsw.step (hfull ▸ removed_spec hh hk s h1) hh ht

/-- The address found for an end is read in front of the connection's block. -/
theorem dstaddr_front (hr : Routed w b c s) (hk : Kinds c) :
    poolConnEndDstaddr w (ptr b s.other) = some ⟨b, -sizeofSockaddr⟩ := by
  unfold poolConnEndDstaddr
  simp only [deref_ptr hr.1, Option.bind_eq_bind, Option.bind_some]
  cases s with
  | inc =>
    have hd : (side c Side.inc.other).kind ≠ .client := hk.2
    rw [if_neg hd]
    simp [Side.other, ptr, dstPtr]
  | dst =>
    have hi : (side c Side.dst.other).kind = .client := hk.1
    rw [if_pos hi]
    simp [Side.other, ptr, incPtr]

/-- So the scan of `pool_handle_drop_dst` is for the bytes found there. -/
theorem dropped_hit (hdr : Nat → SockAddr) (a : SockAddr) (hr : Routed w b c s) (hk : Kinds c) :
    (do
      let q ← poolConnEndDstaddr w (ptr b s.other)
      let x ← w.readAddr hdr q
      some (glbSockaddrIsEqual a x)) = some (decide (a = hdr b)) := by
  simp only [dstaddr_front hr hk, Option.bind_eq_bind, Option.bind_some, World.readAddr, ↓reduceIte,
    glbSockaddrIsEqual]

theorem scanning_start (T : Tabled build w) (hp : Paired w)
    (hrange : ∀ {fd}, w.routeMap fd ≠ none → 0 ≤ fd ∧ fd < poolMaxFd) (tag : Nat → Bool) : Scanning build tag 0 w := by
  refine ⟨T, hp, hrange, ?_⟩
  intro b c hh _ s
  exact (hrange (by rw [hh.route s]; simp)).1

theorem Scanning.start (S : Scanning build tag 0 w) : remaining 0 w = w.fdset.fdMax - 1 := by
  have hlen : w.fdset.pollfds.length = (connFds w).length + 1 := by
    simpa using congrArg List.length S.slots
  have hall : (connFds w).countP (fun x => (0 : Int) ≤ x) = (connFds w).length := by
    rw [List.countP_eq_length]
    intro x hx
    simpa using (S.range (S.mem.mp hx)).1
  unfold remaining
  rw [hall, FdSet.fdMax, hlen]
  push_cast
  exact (Int.add_sub_cancel _ 1).symm

theorem Intact.scanning (I : Intact build w) (tag : Nat → Bool) : Scanning build tag 0 w :=
  scanning_start I.toTabled I.paired I.range tag

theorem Intact.remaining (I : Intact build w) : remaining 0 w = w.fdset.fdMax - 1 :=
  (I.scanning fun _ => false).start

/-- `pool_handle_drop_dst` removes the connections whose block has the address in
front of it. -/
theorem drop_swept (cnf : Cnf) (I : Intact build w) (hdr : Nat → SockAddr) (a : SockAddr) :
    ∃ w', poolHandleDropDst build cnf hdr w a = some w' ∧ SweptOut (fun b => a = hdr b) w w' := by
  unfold poolHandleDropDst
  rw [← I.remaining]
  exact scan_swept cnf (fun hr hk => dropped_hit hdr a hr hk) poolMaxFd 0 rfl (I.scanning _)

/-- What the handler is for: both sockets of exactly the connections to `a` are
closed, every other connection is as it was. -/
def DropExact (build : Build) (cnf : Cnf) (hdr : Nat → SockAddr) (w : World) (a : SockAddr) : Prop :=
  ∃ w', poolHandleDropDst build cnf hdr w a = some w' ∧ ∀ b c, Held w b c →
    if c.dst.addr = a then
      ∀ s, w'.isOpen (side c s).sock = false ∧ w'.routeMap (side c s).sock = none
    else Held w' b c ∧ ∀ s, w'.isOpen (side c s).sock = true

/-- `pool_conn_end_dstaddr` finds the server end, whose first field is its address. -/
def DstaddrRight (w : World) : Prop :=
  ∀ fd p, w.routeMap fd = some p → poolConnEndDstaddr w p = some (dstPtr p.block)

/-- The bytes in front of each connection's block tell whether it goes to `a`, and
none to `a` waits for its connect on a lower descriptor than the client's. -/
def FrontTells (hdr : Nat → SockAddr) (w : World) (a : SockAddr) : Prop :=
  ∀ b c, Held w b c → (hdr b = a ↔ c.dst.addr = a) ∧ (c.dst.addr = a → halfClosed c = false)

theorem Intact.held_open (I : Intact build w) (hh : Held w b c) (s : Side) :
    w.isOpen (side c s).sock = true :=
  I.live (by rw [hh.route s]; simp)

theorem exact_of_front (cnf : Cnf) (I : Intact build w) (hf : FrontTells hdr w a) :
    DropExact build cnf hdr w a := by
  obtain ⟨w', h, hs⟩ := drop_swept cnf I hdr a
  refine ⟨w', h, fun b c hh => ?_⟩
  obtain ⟨htell, hfull⟩ := hf b c hh
  split
  · rename_i ha
    have ht : decide (a = hdr b) = true := decide_eq_true (htell.mpr ha).symm
    obtain ⟨hn, hd, hi⟩ := hs.swept hh ht
    rw [hfull ha, Bool.false_and] at hi
    intro s
    cases s with
    | inc => exact ⟨hi, hn .inc⟩
    | dst => exact ⟨hd, hn .dst⟩
  · rename_i ha
    have ht : decide (a = hdr b) = false := decide_eq_false fun he => ha (htell.mp he.symm)
    obtain ⟨hk, ho⟩ := hs.kept hh ht
    exact ⟨hk, fun s => (ho s).trans (I.held_open hh s)⟩

theorem front_of_exact (I : Intact build w) (he : DropExact build cnf hdr w a) :
    FrontTells hdr w a := by
  obtain ⟨w', h, hs⟩ := drop_swept cnf I hdr a
  obtain ⟨w2, h2, hx⟩ := he
  have hw : w2 = w' := Option.some.inj (h2.symm.trans h)
  subst hw
  intro b c hh
  have hlive : w.isOpen c.inc.sock = true := I.held_open hh .inc
  have hc := hx b c hh
  by_cases hb : hdr b = a
  · have ht : decide (a = hdr b) = true := decide_eq_true hb.symm
    obtain ⟨hn, _, hi⟩ := hs.swept hh ht
    split at hc
    · rename_i ha
      refine ⟨⟨fun _ => ha, fun _ => hb⟩, fun _ => ?_⟩
      have hclosed : w2.isOpen c.inc.sock = false := (hc .inc).1
      rw [hclosed, hlive, Bool.and_true] at hi
      exact hi.symm
    · -- removed, although it goes elsewhere
      have hroute := hc.1.route .inc
      rw [hn .inc] at hroute
      cases hroute
  · have ht : decide (a = hdr b) = false := decide_eq_false fun he => hb he.symm
    obtain ⟨_, ho⟩ := hs.kept hh ht
    split at hc
    · -- kept, although it goes to `a`
      have hopen : w2.isOpen c.inc.sock = true := (ho .inc).trans hlive
      have hclosed : w2.isOpen c.inc.sock = false := (hc .inc).1
      rw [hclosed] at hopen
      cases hopen
    · rename_i ha
      exact ⟨⟨fun h => absurd h hb, fun h => absurd h ha⟩, fun h => absurd h ha⟩

theorem dstaddr_right_iff (T : Tabled build w) : DstaddrRight w ↔ ∀ fd, w.routeMap fd = none := by
  constructor
  · intro h fd
    cases hfd : w.routeMap fd with
    | none => rfl
    | some p =>
      obtain ⟨b, c, s, hr, hk, rfl, _⟩ := T.entry hfd
      have hp := h fd _ hfd
      rw [dstaddr_front hr hk, Option.some.injEq, ptr_block] at hp
      have hoff : -sizeofSockaddr = poolEndSize := congrArg EndPtr.off hp
      exact absurd hoff (by decide)
  · intro h fd p hfd
    rw [h fd] at hfd
    cases hfd

/-- In every pool that is in order, the handler does what it is for if and only if
the bytes in front of the blocks happen to tell so. The address it looks at is
never the server's. -/
theorem drop_exact_iff (I : Intact build w) (cnf : Cnf) (hdr : Nat → SockAddr) (a : SockAddr) :
    (DropExact build cnf hdr w a ↔ FrontTells hdr w a) ∧
      (DstaddrRight w ↔ ∀ fd, w.routeMap fd = none) :=
  ⟨⟨front_of_exact I, exact_of_front cnf I⟩, dstaddr_right_iff I.toTabled⟩

def connTo (addr : SockAddr) (client server : Fd) : Conn :=
  ⟨⟨clientAddr, 0, 0, client, poolFdRead, .client, []⟩, ⟨addr, 0, 0, server, poolFdRead, .complete, []⟩⟩

def connToA : Conn := connTo serverA 6 7
def connToB : Conn := connTo serverB 8 9

/-- A pool that serves these two connections from the blocks 0 and 1. -/
def servesBoth : World where
  ctlRecv := 5
  pipe := []
  nConns := 2
  fdset := ⟨[⟨5, poolFdRead, 0⟩, ⟨6, poolFdRead, 0⟩, ⟨7, poolFdRead, 0⟩, ⟨8, poolFdRead, 0⟩, ⟨9, poolFdRead, 0⟩],
    fdSetsize, fun p => if p = incPtr 0 then 1 else if p = dstPtr 0 then 2 else if p = incPtr 1 then 3 else 4⟩
  stats := glbZeroStats
  shutdown := false
  routeMap := fun fd =>
    if fd = 6 then some (dstPtr 0) else if fd = 7 then some (incPtr 0)
    else if fd = 8 then some (dstPtr 1) else if fd = 9 then some (incPtr 1) else none
  heap := fun b => if b = 0 then some connToA else if b = 1 then some connToB else none
  router := Router.init
  isOpen := fun fd => 5 ≤ fd ∧ fd ≤ 9
  log := []

theorem serves_held_a : Held servesBoth 0 connToA := by
  refine ⟨rfl, fun s => ?_⟩
  cases s <;> rfl

theorem serves_held_b : Held servesBoth 1 connToB := by
  refine ⟨rfl, fun s => ?_⟩
  cases s <;> rfl

theorem serves_entry (h : servesBoth.routeMap fd = some q) :
    ∃ b c s, Held servesBoth b c ∧ Kinds c ∧ q = ptr b s.other ∧ fd = (side c s).sock := by
  simp only [servesBoth] at h
  split at h
  · exact ⟨0, connToA, .inc, serves_held_a, ⟨rfl, by decide⟩, (Option.some.inj h).symm, by assumption⟩
  · split at h
    · exact ⟨0, connToA, .dst, serves_held_a, ⟨rfl, by decide⟩, (Option.some.inj h).symm, by assumption⟩
    · split at h
      · exact ⟨1, connToB, .inc, serves_held_b, ⟨rfl, by decide⟩, (Option.some.inj h).symm, by assumption⟩
      · split at h
        · exact ⟨1, connToB, .dst, serves_held_b, ⟨rfl, by decide⟩, (Option.some.inj h).symm, by assumption⟩
        · cases h

theorem both_block (h : servesBoth.heap b = some c) : b = 0 ∧ c = connToA ∨ b = 1 ∧ c = connToB := by
  simp only [servesBoth] at h
  split at h
  · exact .inl ⟨by assumption, (Option.some.inj h).symm⟩
  · split at h
    · exact .inr ⟨by assumption, (Option.some.inj h).symm⟩
    · cases h

theorem serves_fd : servesBoth.routeMap fd ≠ none ↔ fd ∈ [6, 7, 8, 9] := by
  constructor
  · intro h
    obtain ⟨q, hq⟩ := Option.ne_none_iff_exists'.mp h
    obtain ⟨b, c, s, hh, _, _, rfl⟩ := serves_entry hq
    rcases both_block hh.block with ⟨_, rfl⟩ | ⟨_, rfl⟩ <;> cases s <;> decide
  · revert fd
    decide

theorem serves_intact (build : Build) : Intact build servesBoth := by
  refine ⟨⟨?_, rfl, by decide, ?_, ?_⟩, ?_, ?_, ?_⟩
  · intro fd q hq
    obtain ⟨b, c, s, hh, hk, hqe, hs⟩ := serves_entry hq
    exact ⟨b, c, s, held_routed hh s, hk, hqe, hs⟩
  · intro fd
    exact serves_fd.symm
  · intro _ b c s h
    rcases both_block h.1 with ⟨rfl, rfl⟩ | ⟨rfl, rfl⟩ <;> cases s <;> exact ⟨_, rfl, rfl, rfl⟩
  · intro fd q hq
    obtain ⟨b, c, s, hh, _, _, hs⟩ := serves_entry hq
    exact ⟨b, c, s, hh, hs⟩
  · intro fd h
    have hfds : ∀ fd ∈ [6, 7, 8, 9], 0 ≤ fd ∧ fd < (poolMaxFd : Int) := by decide
    exact hfds fd (serves_fd.mp h)
  · intro fd h
    have hfds : ∀ fd ∈ [6, 7, 8, 9], servesBoth.isOpen fd = true := by decide
    exact hfds fd (serves_fd.mp h)

/-- What stands in front of the blocks happens to tell the servers. -/
def luckyFront (b : Nat) : SockAddr := if b = 0 then serverA else serverB

/-- Where the bytes in front of the blocks read as the servers, the connection to A goes
and the one to B stays. -/
theorem drop_exact_iff_lucky :
    Intact .poll servesBoth ∧ Held servesBoth 0 connToA ∧ Held servesBoth 1 connToB ∧
      DropExact .poll leastConns luckyFront servesBoth serverA ∧ ¬ DstaddrRight servesBoth := by
  obtain ⟨hexact, hright⟩ := drop_exact_iff (serves_intact .poll) leastConns luckyFront serverA
  refine ⟨serves_intact .poll, serves_held_a, serves_held_b, hexact.mpr ?_, ?_⟩
  · intro b c hh
    rcases both_block hh.block with ⟨rfl, rfl⟩ | ⟨rfl, rfl⟩ <;> exact ⟨by decide, by decide⟩
  · intro h
    have h6 := hright.mp h 6
    cases h6

/-- The header that the allocator keeps in front of a block of two ends. -/
def mallocHeader : SockAddr := ⟨0, 0, ⟨0, 0, 0, 0⟩, 16401⟩

/-- The first pool as its thread sees it. -/
def firstPool (d : Daemon) : World := d.world (d.pools.headD (Pool.init 0))

/-- After a client was connected to A, dropping A closes nothing. -/
theorem drop_misses_server :
    exec (daemonStep .epoll leastConns noWdog) oneDaemon connectA =
      some (reachedBy leastConns connectA) ∧
    ¬ DropExact .epoll leastConns (fun _ => mallocHeader)
      (firstPool (reachedBy leastConns connectA)) serverA ∧
    ¬ DstaddrRight (firstPool (reachedBy leastConns connectA)) := by
  have hconn : ((firstPool (reachedBy leastConns connectA)).heap 0).map
      (fun c => (c.inc.sock, c.dst.sock, c.dst.addr)) = some (6, 7, serverA) := by decide +kernel
  have hroute6 : (firstPool (reachedBy leastConns connectA)).routeMap 6 = some (dstPtr 0) := by
    decide +kernel
  have hroute7 : (firstPool (reachedBy leastConns connectA)).routeMap 7 = some (incPtr 0) := by
    decide +kernel
  refine ⟨reached_by leastConns connectA (by decide +kernel), ?_, ?_⟩
  · intro h
    obtain ⟨c, hc, hsocks⟩ := Option.map_eq_some_iff.mp hconn
    simp only [Prod.mk.injEq] at hsocks
    obtain ⟨hi, hd, ha⟩ := hsocks
    have hh : Held (firstPool (reachedBy leastConns connectA)) 0 c := by
      refine ⟨hc, fun s => ?_⟩
      cases s with
      | inc => exact (congrArg _ hi).trans hroute6
      | dst => exact (congrArg _ hd).trans hroute7
    have hopen : (poolHandleDropDst .epoll leastConns (fun _ => mallocHeader)
        (firstPool (reachedBy leastConns connectA)) serverA).map (fun w => w.isOpen 6) =
          some true := by decide +kernel
    obtain ⟨w', h, hx⟩ := h
    have hclosed := hx 0 c hh
    rw [if_pos ha] at hclosed
    have h6 : w'.isOpen c.inc.sock = false := (hclosed .inc).1
    rw [hi] at h6
    rw [h, Option.map_some, h6] at hopen
    cases hopen
  · intro h
    have hptr : poolConnEndDstaddr (firstPool (reachedBy leastConns connectA)) (dstPtr 0) =
        some ⟨0, -sizeofSockaddr⟩ := by decide +kernel
    have hoff := (h 6 _ hroute6).symm.trans hptr
    cases hoff

end Glb.Proofs.Drop
