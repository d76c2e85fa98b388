import Glb.Proofs.Descriptors
import Glb.Proofs.Drop

namespace Glb.Proofs.ScanEnds
open PoolFrame FdTable Registry Drop RouterRun

/-- What a scan does at a test of its count: where it is, the count, and what it then
decides on which connection, named by its block. -/
structure Look where
  fd : Nat
  count : Int
  decided : Option (Nat × Bool)
  deriving DecidableEq, Repr

/-- `scanLoop` with what it does at each test of its count. -/
def scanTrace (build : Build) (cnf : Cnf) (hit : World → EndPtr → Option Bool) :
    Nat → Nat → Int → World → Option (List Look × World)
  | 0, fd, count, w => if count = 0 then some ([⟨fd, count, none⟩], w) else none
  | n + 1, fd, count, w =>
    if count = 0 then some ([⟨fd, count, none⟩], w)
    else
      match w.routeMap fd with
      | none => (scanTrace build cnf hit n (fd + 1) count w).map fun r => (⟨fd, count, none⟩ :: r.1, r.2)
      | some p => do
        let h ← hit w p
        if h then
          let w ← poolRemoveConn build cnf w fd false
          (scanTrace build cnf hit n (fd + 1) (count - 2) w).map fun r =>
            (⟨fd, count, some (p.block, true)⟩ :: r.1, r.2)
        else
          (scanTrace build cnf hit n (fd + 1) (count - 1) w).map fun r =>
            (⟨fd, count, some (p.block, false)⟩ :: r.1, r.2)

variable {build : Build} {cnf : Cnf} {w w' : World} {tag : Nat → Bool} {hit : World → EndPtr → Option Bool}
  {looks : List Look} {b : Nat} {c : Conn} {s : Side}

/-- The trace is one of the loop. -/
theorem scan_trace_loop (build : Build) (cnf : Cnf) (hit : World → EndPtr → Option Bool) (n fd : Nat) (count : Int) (w : World) :
    (scanTrace build cnf hit n fd count w).map Prod.snd = scanLoop build cnf hit n fd count w := by
  induction n generalizing fd count w with
  | zero =>
    unfold scanTrace scanLoop
    split
    · rfl
    · rfl
  | succ n ih =>
    unfold scanTrace scanLoop
    split
    · rfl
    · cases w.routeMap fd with
      | none =>
        dsimp only
        rw [Option.map_map, ← ih]
        rfl
      | some p =>
        dsimp only
        cases hit w p with
        | none => rfl
        | some h =>
          cases h with
          | true =>
            simp only [Option.bind_eq_bind, Option.bind_some, ↓reduceIte]
            cases poolRemoveConn build cnf w fd false with
            | none => rfl
            | some w1 =>
              rw [Option.bind_some, Option.bind_some, Option.map_map, ← ih]
              rfl
          | false =>
            simp only [Option.bind_eq_bind, Option.bind_some, Bool.false_eq_true, ↓reduceIte]
            rw [Option.map_map, ← ih]
            rfl

/-- A scan from `fd` on that ended exactly: the count never went below zero and was zero
at the end, no index was past the end of the map, and every connection with a descriptor
ahead was decided on. -/
structure Ended (tag : Nat → Bool) (fd : Nat) (w : World) (looks : List Look) : Prop where
  first : looks.head?.map Look.count = some (remaining fd w)
  counts : ∀ l ∈ looks, 0 ≤ l.count
  index : ∀ l ∈ looks, l.fd ≤ poolMaxFd
  last : looks.getLast?.map Look.count = some 0
  decided : ∀ {b c s}, Held w b c → (fd : Int) ≤ (side c s).sock → ∃ l ∈ looks, l.decided = some (b, tag b)

theorem remaining_nonneg (fd : Int) (w : World) : 0 ≤ remaining fd w := Int.natCast_nonneg _

/-- Where nothing is ahead, the scan ends at once. -/
theorem ended_here {fd : Nat} (S : Scanning build tag fd w) (hfd : fd ≤ poolMaxFd) (h0 : remaining fd w = 0) :
    Ended tag fd w [⟨fd, remaining fd w, none⟩] := by
  refine ⟨rfl, ?_, ?_, ?_, ?_⟩
  · intro l hl
    obtain rfl := List.mem_singleton.mp hl
    exact remaining_nonneg fd w
  · intro l hl
    obtain rfl := List.mem_singleton.mp hl
    exact hfd
  · exact congrArg some h0
  · intro b c s hh hle
    have hz : (connFds w).countP (fun x => (fd : Int) ≤ x) = 0 := Int.ofNat.inj h0
    have hnot := List.countP_eq_zero.mp hz _ (S.routed_mem (held_routed hh s))
    exact absurd (decide_eq_true hle) hnot

/-- One more look. It decides on a connection, or that has a descriptor ahead. -/
theorem Ended.look {fd : Nat} {d : Option (Nat × Bool)} {w1 : World} (E : Ended tag (fd + 1) w1 looks)
    (hfd : fd ≤ poolMaxFd)
    (hd : ∀ {b c s}, Held w b c → (fd : Int) ≤ (side c s).sock →
      d = some (b, tag b) ∨ Held w1 b c ∧ ((fd + 1 : Nat) : Int) ≤ (side c s).sock) :
    Ended tag fd w (⟨fd, remaining fd w, d⟩ :: looks) := by
  refine ⟨rfl, ?_, ?_, ?_, ?_⟩
  · intro l hl
    rcases List.mem_cons.mp hl with rfl | hl
    · exact remaining_nonneg fd w
    · exact E.counts l hl
  · intro l hl
    rcases List.mem_cons.mp hl with rfl | hl
    · exact hfd
    · exact E.index l hl
  · obtain ⟨last, hlast, hzero⟩ := Option.map_eq_some_iff.mp E.last
    rw [List.getLast?_cons, hlast]
    exact congrArg some hzero
  · intro b c s hh hle
    rcases hd hh hle with hnow | ⟨hh1, hle1⟩
    · exact ⟨_, List.mem_cons_self, hnow⟩
    · obtain ⟨l, hl, hdec⟩ := E.decided hh1 hle1
      exact ⟨l, List.mem_cons_of_mem _ hl, hdec⟩

theorem ahead_of_ne {fd : Nat} {x : Fd} (hle : (fd : Int) ≤ x) (hne : x ≠ fd) : ((fd + 1 : Nat) : Int) ≤ x :=
  Int.add_one_le_of_lt (lt_of_le_of_ne hle (Ne.symm hne))

/-- A connection with a descriptor from `fd` on is the one at `fd`, or that descriptor is
ahead. -/
theorem same_or_ahead {fd b₀ : Nat} {c₀ : Conn} {s₀ : Side} (hr : Routed w b₀ c₀ s₀)
    (hs : (fd : Int) = (side c₀ s₀).sock) (hh : Held w b c) (hle : (fd : Int) ≤ (side c s).sock) :
    b = b₀ ∨ b ≠ b₀ ∧ ((fd + 1 : Nat) : Int) ≤ (side c s).sock := by
  by_cases hb : b = b₀
  · exact .inl hb
  · refine .inr ⟨hb, ahead_of_ne hle fun he => ?_⟩
    exact hb ((held_routed hh s).unique hr (he.trans hs)).1

/-- The scan ends exactly, for every match. -/
theorem trace_ended (cnf : Cnf)
    (hhit : ∀ {w b c s}, Routed w b c s → Kinds c → hit w (ptr b s.other) = some (tag b))
    (n fd : Nat) (hn : n + fd = poolMaxFd) (S : Scanning build tag fd w) :
    ∃ looks w', scanTrace build cnf hit n fd (remaining fd w) w = some (looks, w') ∧ Ended tag fd w looks := by
  induction n generalizing fd w with
  | zero =>
    have hfd : fd = poolMaxFd := by omega
    subst hfd
    have h0 := S.at_end
    exact ⟨_, w, by rw [scanTrace, if_pos h0], ended_here S (Nat.le_refl _) h0⟩
  | succ n ih =>
    have hfd : fd ≤ poolMaxFd := by omega
    unfold scanTrace
    by_cases h0 : remaining fd w = 0
    · exact ⟨_, w, by rw [if_pos h0], ended_here S hfd h0⟩
    · rw [if_neg h0]
      cases S.visit cnf with
      | free hfree S' hrem =>
        obtain ⟨looks, w', h, E⟩ := ih (fd + 1) (by omega) S'
        rw [← hrem] at h
        refine ⟨_, w', by rw [hfree]; dsimp only; rw [h, Option.map_some], E.look hfd ?_⟩
        intro b c s hh hle
        refine .inr ⟨hh, ahead_of_ne hle fun he => ?_⟩
        rw [← he, hh.route s] at hfree
        cases hfree
      | @left b₀ c₀ s₀ hr hk hs hmap ht S' hrem =>
        obtain ⟨looks, w', h, E⟩ := ih (fd + 1) (by omega) S'
        rw [← hrem] at h
        refine ⟨⟨fd, remaining fd w, some (b₀, false)⟩ :: looks, w', ?_, E.look hfd ?_⟩
        · rw [hmap]
          simp only [hhit hr hk, ht, Option.bind_eq_bind, Option.bind_some, Bool.false_eq_true, ↓reduceIte, h,
            Option.map_some, ptr_block]
        · intro b c s hh hle
          rcases same_or_ahead hr hs hh hle with rfl | ⟨_, hahead⟩
          · exact .inl (by rw [ht])
          · exact .inr ⟨hh, hahead⟩
      | @removed b₀ c₀ s₀ w1 hr hk hs hmap ht h1 hfull S1 hrem =>
        obtain ⟨looks, w', h, E⟩ := ih (fd + 1) (by omega) S1
        rw [← hrem] at h
        have hh₀ := paired_held S.paired hr
        have hgone := removed_spec hh₀ hk s₀ (hs ▸ h1)
        refine ⟨⟨fd, remaining fd w, some (b₀, true)⟩ :: looks, w', ?_, E.look hfd ?_⟩
        · rw [hmap]
          simp only [hhit hr hk, ht, Option.bind_eq_bind, Option.bind_some, ↓reduceIte, h1, h, Option.map_some,
            ptr_block]
        · intro b c s hh hle
          rcases same_or_ahead hr hs hh hle with rfl | ⟨hne, hahead⟩
          · exact .inl (by rw [ht])
          · exact .inr ⟨(hgone.held_iff hh₀).mpr ⟨hne, hh⟩, hahead⟩

/-- A scan of the whole map ends exactly: its count starts with two descriptors for each
connection, is never negative and comes to zero at an index inside the map or at its end,
when every connection has been decided on and those that match are gone. -/
def EndsExactly (build : Build) (cnf : Cnf) (hit : World → EndPtr → Option Bool) (tag : Nat → Bool) (w w' : World) :
    Prop :=
  ∃ looks, scanTrace build cnf hit poolMaxFd 0 (w.fdset.fdMax - 1 : Int) w = some (looks, w') ∧
    looks.head?.map Look.count = some (2 * w.nConns) ∧ (∀ l ∈ looks, 0 ≤ l.count) ∧
    (∀ l ∈ looks, l.fd ≤ poolMaxFd) ∧ looks.getLast?.map Look.count = some 0 ∧
    (∀ b c, Held w b c → ∃ l ∈ looks, l.decided = some (b, tag b)) ∧ SweptOut tag w w'

theorem ends_exactly (cnf : Cnf) (hit : World → EndPtr → Option Bool) (tag : Nat → Bool) (T : Tabled build w)
    (hp : Paired w) (hrange : ∀ {fd}, w.routeMap fd ≠ none → 0 ≤ fd ∧ fd < poolMaxFd)
    (hsize : (w.fdset.fdMax : Int) = 2 * w.nConns + 1)
    (hhit : ∀ {w b c s}, Routed w b c s → Kinds c → hit w (ptr b s.other) = some (tag b)) :
    ∃ w', scanLoop build cnf hit poolMaxFd 0 (w.fdset.fdMax - 1 : Int) w = some w' ∧
      EndsExactly build cnf hit tag w w' := by
  have S := scanning_start T hp hrange tag
  have hstart := S.start
  obtain ⟨looks, w', h, E⟩ := trace_ended cnf hhit poolMaxFd 0 rfl S
  obtain ⟨w₂, h₂, hswept⟩ := scan_swept cnf hhit poolMaxFd 0 rfl S
  rw [Nat.cast_zero, hstart] at h h₂
  have hloop := scan_trace_loop build cnf hit poolMaxFd 0 (w.fdset.fdMax - 1 : Int) w
  rw [h, Option.map_some] at hloop
  obtain rfl := Option.some.inj (hloop.trans h₂)
  refine ⟨w', h₂, looks, h, ?_, E.counts, E.index, E.last, ?_, hswept⟩
  · rw [E.first, Nat.cast_zero, hstart, hsize]
    simp
  · intro b c hh
    refine E.decided (s := .inc) hh ?_
    exact (hrange (by rw [hh.route .inc]; simp)).1

/-- The match of `pool_handle_drop_dst`. -/
def dropHit (hdr : Nat → SockAddr) (dst : SockAddr) (w : World) (p : EndPtr) : Option Bool := do
  let q ← poolConnEndDstaddr w p
  let a ← w.readAddr hdr q
  some (glbSockaddrIsEqual dst a)

/-- The descriptor scans end exactly, whatever is to match: the loop with any match, that
of `pool_handle_drop_dst` and that of `pool_handle_shutdown`. -/
theorem scans_end_exactly (cnf : Cnf) (T : Tabled build w) (hp : Paired w)
    (hrange : ∀ fd, w.routeMap fd ≠ none → 0 ≤ fd ∧ fd < poolMaxFd)
    (hsize : (w.fdset.fdMax : Int) = 2 * w.nConns + 1) :
    (∀ tag : Nat → Bool, ∃ w',
        scanLoop build cnf (fun _ p => some (tag p.block)) poolMaxFd 0 (w.fdset.fdMax - 1 : Int) w = some w' ∧
        EndsExactly build cnf (fun _ p => some (tag p.block)) tag w w') ∧
      (∀ hdr a, ∃ w', poolHandleDropDst build cnf hdr w a = some w' ∧
        EndsExactly build cnf (dropHit hdr a) (fun b => a = hdr b) w w') ∧
      ∃ w', poolHandleShutdown build cnf w = some { w'.close w'.ctlRecv with shutdown := true } ∧
        EndsExactly build cnf (fun _ _ => some true) (fun _ => true) w w' := by
  have hrange : ∀ {fd}, w.routeMap fd ≠ none → 0 ≤ fd ∧ fd < poolMaxFd := fun {fd} => hrange fd
  refine ⟨fun tag => ?_, fun hdr a => ?_, ?_⟩
  · have hhit : ∀ {w b c s}, Routed w b c s → Kinds c → some (tag (ptr b s.other).block) = some (tag b) := by
      intro w b c s _ _
      rw [ptr_block]
    exact ends_exactly cnf (fun _ p => some (tag p.block)) tag T hp hrange hsize hhit
  · exact ends_exactly cnf (dropHit hdr a) _ T hp hrange hsize fun hr hk => dropped_hit hdr a hr hk
  · obtain ⟨w', h, hend⟩ := ends_exactly cnf (fun _ _ => some true) _ T hp hrange hsize fun _ _ => rfl
    refine ⟨w', ?_, hend⟩
    unfold poolHandleShutdown
    rw [h]
    rfl

theorem scans_end_serving :
    Held servesBoth 1 connToB ∧ ∃ w', poolHandleDropDst .poll leastConns luckyFront servesBoth serverA = some w' ∧
      EndsExactly .poll leastConns (dropHit luckyFront serverA) (fun b => serverA = luckyFront b) servesBoth w' := by
  have I := serves_intact .poll
  exact ⟨serves_held_b,
    (scans_end_exactly leastConns I.toTabled I.paired (fun _ => I.range) (by decide)).2.1 luckyFront serverA⟩

end Glb.Proofs.ScanEnds
