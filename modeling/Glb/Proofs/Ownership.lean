import Glb.Lib.Claims
import Glb.Proofs.PoolEvents

namespace Glb.Proofs.Ownership
open Function Lib.Claims PoolFrame PoolEvents

/-- Who may hold a descriptor: an end of a connection, the listener for the client
it has accepted and for the server it connects to, a pool for its pipe. -/
inductive Owner where
  | conn (b : Nat) (s : Side)
  | client
  | server
  | pipe (i : Nat)
  deriving DecidableEq

/-- Where a block is: served by a pool, waiting in the pipe of one, or in the
hands of the pool that took it out of either. -/
inductive Home where
  | held (i : Nat)
  | queued (i : Nat)
  | hand
  deriving DecidableEq

/-- The daemon as far as it matters who holds which descriptor and block. -/
structure View where
  routes : Nat → Fd → Option EndPtr
  queue : Nat → List Nat
  pipe : Nat → Option Fd
  heap : Nat → Option Conn
  isOpen : Fd → Bool
  listener : Listener
  next : Nat

def clientFd : Listener → Option Fd
  | .idle => none
  | .connecting inc _ _ _ _ => some inc
  | .chosen inc _ _ _ _ => some inc

/-- The socket towards a server that the listener has open. -/
def serverFd : Listener → Option Fd
  | .connecting _ _ sock _ _ => some sock
  | .chosen _ _ sock _ true => some sock
  | _ => none

/-- The register of the daemon: `claim` tells which descriptor each owner holds,
`home` where each block is. -/
structure Ledger (v : View) (claim : Owner → Option Fd) (home : Nat → Option Home) : Prop where
  sound : Sound claim v.isOpen
  pos : ∀ {o fd}, claim o = some fd → 0 < fd
  block : ∀ {b h}, home b = some h → ∃ c, v.heap b = some c ∧ Kinds c ∧
    claim (.conn b .inc) = some c.inc.sock ∧
    (0 ≤ c.dst.sock → claim (.conn b .dst) = some c.dst.sock)
  below : ∀ {b c}, v.heap b = some c → b < v.next
  held : ∀ {b i c}, home b = some (.held i) → v.heap b = some c →
    0 ≤ c.dst.sock ∧ ∀ s, v.routes i (side c s).sock = some (ptr b s.other)
  routed : ∀ {i fd p}, v.routes i fd = some p →
    ∃ b c s, home b = some (.held i) ∧ v.heap b = some c ∧ fd = (side c s).sock
  queued : ∀ {b i}, b ∈ v.queue i ↔ home b = some (.queued i)
  nodup : ∀ i, (v.queue i).Nodup
  client : ∀ {fd}, clientFd v.listener = some fd → claim .client = some fd
  server : ∀ {fd}, serverFd v.listener = some fd → claim .server = some fd
  unconnected : ∀ {inc a sock da}, v.listener = .chosen inc a sock da false → sock < 0
  pipes : ∀ {i fd}, v.pipe i = some fd → claim (.pipe i) = some fd

variable {v : View} {claim : Owner → Option Fd} {home : Nat → Option Home}
variable {b i : Nat} {c c' : Conn} {fd : Fd}

theorem update_eq_some {α β : Type} [DecidableEq α] {f : α → Option β} {a a' : α} {x : Option β}
    {y : β} (h : update f a x a' = some y) : (a' = a ∧ x = some y) ∨ (a' ≠ a ∧ f a' = some y) := by
  by_cases he : a' = a
  · subst he
    exact Or.inl ⟨rfl, by simpa using h⟩
  · exact Or.inr ⟨he, by simpa [he] using h⟩

theorem update_none {α β : Type} [DecidableEq α] {f : α → Option β} {a a' : α} {y : β}
    (h : update f a none a' = some y) : f a' = some y := by
  rcases update_eq_some h with ⟨_, hx⟩ | ⟨_, h⟩
  · cases hx
  · exact h

theorem Ledger.unique (L : Ledger v claim home) (hb : home b = some h) (hc : v.heap b = some c) :
    Kinds c ∧ claim (.conn b .inc) = some c.inc.sock ∧
      (0 ≤ c.dst.sock → claim (.conn b .dst) = some c.dst.sock) := by
  obtain ⟨c0, h0, hrest⟩ := L.block hb
  rw [hc, Option.some.injEq] at h0
  exact h0 ▸ hrest

/-- A pool's connection holds both its descriptors. -/
theorem Ledger.claims (L : Ledger v claim home) (hb : home b = some (.held i))
    (hc : v.heap b = some c) (s : Side) : claim (.conn b s) = some (side c s).sock := by
  obtain ⟨_, hi, hd⟩ := L.unique hb hc
  cases s with
  | inc => exact hi
  | dst => exact hd (L.held hb hc).1

theorem Ledger.home_below (L : Ledger v claim home) (hb : home b = some h) : b < v.next := by
  obtain ⟨c, hc, _⟩ := L.block hb
  exact L.below hc

/-- Memory is below the next block after a write to a block that is. -/
theorem Ledger.below_set (L : Ledger v claim home) (hlt : b < v.next) {x : Option Conn} {b' : Nat}
    (h0 : update v.heap b x b' = some c') : b' < v.next := by
  rcases update_eq_some h0 with ⟨rfl, _⟩ | ⟨_, h0⟩
  · exact hlt
  · exact L.below h0

/-- What is routed belongs to another block than one that no pool holds. -/
theorem Ledger.routed_apart (L : Ledger v claim home) (hb : home b ≠ some (.held i))
    (hr : v.routes i fd = some p) :
    ∃ b' c s, b' ≠ b ∧ home b' = some (.held i) ∧ v.heap b' = some c ∧ fd = (side c s).sock := by
  obtain ⟨b', c, s, hb', hc, hfd⟩ := L.routed hr
  refine ⟨b', c, s, ?_, hb', hc, hfd⟩
  rintro rfl
  exact hb hb'

/-- No home is claimed for a block that is still to be allocated. -/
theorem Ledger.home_next (L : Ledger v claim home) : home v.next = none := by
  cases hh : home v.next with
  | none => rfl
  | some h => exact absurd (L.home_below hh) (Nat.lt_irrefl _)

section ops

/-- A connection changes without changing its descriptors. -/
theorem Ledger.keep (L : Ledger v claim home) (hc : v.heap b = some c)
    (hs : ∀ s, (side c' s).sock = (side c s).sock) (hk : Kinds c → Kinds c') :
    Ledger { v with heap := update v.heap b (some c') } claim home where
  sound := L.sound
  pos := L.pos
  block := by
    intro b' h hb
    by_cases he : b' = b
    · subst he
      obtain ⟨hkc, hi, hd⟩ := L.unique hb hc
      refine ⟨c', by simp, hk hkc, hi.trans (congrArg some (hs .inc).symm), fun h0 => ?_⟩
      have hsd : c'.dst.sock = c.dst.sock := hs .dst
      rw [hsd] at h0 ⊢
      exact hd h0
    · obtain ⟨c0, h0, hrest⟩ := L.block hb
      exact ⟨c0, by simpa [he] using h0, hrest⟩
  below := L.below_set (L.below hc)
  held := by
    intro b' i c0 hb h0
    rcases update_eq_some h0 with ⟨rfl, hx⟩ | ⟨_, h0⟩
    · obtain ⟨hd, hr⟩ := L.held hb hc
      simp only [Option.some.injEq] at hx
      subst hx
      have hsd : c'.dst.sock = c.dst.sock := hs .dst
      exact ⟨hsd ▸ hd, fun s => (hs s).symm ▸ hr s⟩
    · exact L.held hb h0
  routed := by
    intro i fd p hr
    obtain ⟨b', c0, s, hb, h0, hfd⟩ := L.routed hr
    by_cases he : b' = b
    · subst he
      rw [hc, Option.some.injEq] at h0
      subst h0
      exact ⟨b', c', s, hb, by simp, hfd.trans (hs s).symm⟩
    · exact ⟨b', c0, s, hb, by simpa [he] using h0, hfd⟩
  queued := L.queued
  nodup := L.nodup
  client := L.client
  server := L.server
  unconnected := L.unconnected
  pipes := L.pipes

/-- The pool `i` takes a connection out of its tables and closes the server's
descriptor. -/
def View.unhold (v : View) (i b : Nat) (c : Conn) : View :=
  { v with
    routes := update v.routes i
      (update (update (v.routes i) c.dst.sock none) c.inc.sock none)
    isOpen := update v.isOpen c.dst.sock false
    heap := update v.heap b (some (onSock c (-1))) }

theorem Ledger.unhold (L : Ledger v claim home) (hb : home b = some (.held i))
    (hc : v.heap b = some c) :
    Ledger (v.unhold i b c) (update claim (.conn b .dst) none)
      (update home b (some .hand)) := by
  have hmine := L.claims hb hc
  -- what is held elsewhere is on other descriptors
  have hother : ∀ {b' j c0} (s s' : Side), b' ≠ b → home b' = some (.held j) →
      v.heap b' = some c0 → (side c0 s).sock ≠ (side c s').sock := by
    intro b' j c0 s s' hne hb' h0
    exact L.sound.ne (L.claims hb' h0 s) (hmine s') (by simp [hne])
  refine ⟨(L.sound.drop _).retire (drop_unclaimed L.sound (hmine .dst)), ?_, ?_, ?_, ?_, ?_, ?_,
    L.nodup, ?_, ?_, L.unconnected, ?_⟩
  · intro o fd ho
    exact L.pos (update_some ho).2
  · intro b' h hb'
    by_cases he : b' = b
    · subst he
      obtain ⟨hk, hi, _⟩ := L.unique hb hc
      refine ⟨onSock c (-1), by simp [View.unhold], hk, by simpa [onSock] using hi, ?_⟩
      intro h0
      have : (0 : Int) ≤ -1 := h0
      omega
    · rw [update_of_ne he] at hb'
      obtain ⟨c0, h0, hk, hi, hd⟩ := L.block hb'
      exact ⟨c0, by simpa [View.unhold, he] using h0, hk, by simpa using hi, by simpa [he] using hd⟩
  · intro b' c0 h0
    exact L.below_set (L.below hc) h0
  · intro b' j c0 hb' h0
    rcases update_eq_some hb' with ⟨_, hx⟩ | ⟨he, hb'⟩
    · cases hx
    · have h0' : v.heap b' = some c0 := by simpa [View.unhold, he] using h0
      obtain ⟨hd, hr⟩ := L.held hb' h0'
      refine ⟨hd, fun s => ?_⟩
      by_cases hj : j = i
      · subst hj
        have hni : (side c0 s).sock ≠ c.inc.sock := hother s .inc he hb' h0'
        have hnd : (side c0 s).sock ≠ c.dst.sock := hother s .dst he hb' h0'
        simpa [View.unhold, hni, hnd] using hr s
      · simpa [View.unhold, hj] using hr s
  · intro j fd p hr
    by_cases hj : j = i
    · subst hj
      simp only [View.unhold, update_self] at hr
      rcases update_eq_some hr with ⟨_, hx⟩ | ⟨hni, hr⟩
      · cases hx
      · rcases update_eq_some hr with ⟨_, hx⟩ | ⟨hnd, hr⟩
        · cases hx
        · obtain ⟨b', c0, s, hb', h0, hfd⟩ := L.routed hr
          have he : b' ≠ b := by
            intro he
            subst he
            rw [hc, Option.some.injEq] at h0
            subst h0
            cases s with
            | inc => exact hni hfd
            | dst => exact hnd hfd
          exact ⟨b', c0, s, by simpa [he] using hb', by simpa [View.unhold, he] using h0, hfd⟩
    · simp only [View.unhold, update_of_ne hj] at hr
      obtain ⟨b', c0, s, hb', h0, hfd⟩ := L.routed hr
      have he : b' ≠ b := by
        intro he
        rw [he, hb] at hb'
        simp only [Option.some.injEq, Home.held.injEq] at hb'
        exact hj hb'.symm
      exact ⟨b', c0, s, by simpa [he] using hb', by simpa [View.unhold, he] using h0, hfd⟩
  · intro b' j
    by_cases he : b' = b
    · subst he
      have hq := L.queued (b := b') (i := j)
      simp only [hb, Option.some.injEq, reduceCtorEq, iff_false] at hq
      simpa [View.unhold] using hq
    · simpa [View.unhold, he] using L.queued (b := b') (i := j)
  · intro fd hf
    simpa using L.client hf
  · intro fd hf
    simpa using L.server hf
  · intro j fd hf
    simpa using L.pipes hf

/-- The pool lets go of the block in its hands, whatever becomes of the memory. -/
theorem Ledger.forget (L : Ledger v claim home) (hb : home b = some .hand) (x : Option Conn) :
    Ledger { v with heap := update v.heap b x }
      (update (update claim (.conn b .inc) none) (.conn b .dst) none) (update home b none) where
  sound := (L.sound.drop _).drop _
  pos := by
    intro o fd ho
    exact L.pos (update_some (update_some ho).2).2
  block := by
    intro b' h hb'
    rcases update_eq_some hb' with ⟨_, hx⟩ | ⟨he, hb'⟩
    · cases hx
    · obtain ⟨c0, h0, hk, hi, hd⟩ := L.block hb'
      exact ⟨c0, by simpa [he] using h0, hk, by simpa [he] using hi, by simpa [he] using hd⟩
  below := L.below_set (L.home_below hb)
  held := by
    intro b' j c0 hb' h0
    rcases update_eq_some hb' with ⟨_, hx⟩ | ⟨he, hb'⟩
    · cases hx
    · exact L.held hb' (by simpa [he] using h0)
  routed := by
    intro j fd p hr
    obtain ⟨b', c0, s, he, hb', h0, hfd⟩ := L.routed_apart (b := b) (by simp [hb]) hr
    exact ⟨b', c0, s, by simpa [he] using hb', by simpa [he] using h0, hfd⟩
  queued := by
    intro b' j
    have hq := L.queued (b := b') (i := j)
    by_cases he : b' = b
    · subst he
      simpa [hb] using hq
    · simpa [he] using hq
  nodup := L.nodup
  client := fun hf => by simpa using L.client hf
  server := fun hf => by simpa using L.server hf
  unconnected := L.unconnected
  pipes := fun hf => by simpa using L.pipes hf

/-- A descriptor that nobody holds is closed. -/
theorem Ledger.close (L : Ledger v claim home) (fd : Fd) (hn : ∀ o, claim o ≠ some fd) :
    Ledger { v with isOpen := update v.isOpen fd false } claim home :=
  { L with sound := L.sound.retire hn }

/-- The block in hand gets a new descriptor to its server. -/
theorem Ledger.socket (L : Ledger v claim home) (hb : home b = some .hand)
    (hc : v.heap b = some c) (hp : 0 < fd) (hf : v.isOpen fd = false) :
    Ledger { v with
        isOpen := update v.isOpen fd true
        heap := update v.heap b (some (onSock c fd)) }
      (update claim (.conn b .dst) (some fd)) home where
  sound := L.sound.create hf _
  pos := by
    intro o fd' ho
    rcases update_eq_some ho with ⟨_, hx⟩ | ⟨_, ho⟩
    · simp only [Option.some.injEq] at hx
      exact hx ▸ hp
    · exact L.pos ho
  block := by
    intro b' h hb'
    by_cases he : b' = b
    · subst he
      obtain ⟨hk, hi, _⟩ := L.unique hb hc
      exact ⟨onSock c fd, by simp, hk, by simpa [onSock] using hi, by simp [onSock]⟩
    · obtain ⟨c0, h0, hk, hi, hd⟩ := L.block hb'
      exact ⟨c0, by simpa [he] using h0, hk, by simpa using hi, by simpa [he] using hd⟩
  below := L.below_set (L.home_below hb)
  held := by
    intro b' j c0 hb' h0
    rcases update_eq_some h0 with ⟨rfl, _⟩ | ⟨_, h0⟩
    · rw [hb] at hb'
      cases hb'
    · exact L.held hb' h0
  routed := by
    intro j fd' p hr
    obtain ⟨b', c0, s, he, hb', h0, hfd⟩ := L.routed_apart (b := b) (by simp [hb]) hr
    exact ⟨b', c0, s, hb', by simpa [he] using h0, hfd⟩
  queued := L.queued
  nodup := L.nodup
  client := fun hf => by simpa using L.client hf
  server := fun hf => by simpa using L.server hf
  unconnected := L.unconnected
  pipes := fun hf => by simpa using L.pipes hf

/-- The pool `i` registers the connection in its hands. -/
def View.attach (v : View) (i b : Nat) (c : Conn) : View :=
  { v with
    routes := update v.routes i
      (update (update (v.routes i) c.inc.sock (some (dstPtr b))) c.dst.sock (some (incPtr b)))
    heap := update v.heap b (some c) }

theorem Ledger.attach (L : Ledger v claim home) (i : Nat) (c' : Conn) (hb : home b = some .hand)
    (hc : v.heap b = some c) (hd0 : 0 ≤ c.dst.sock)
    (hs : ∀ s, (side c' s).sock = (side c s).sock) (hk : Kinds c → Kinds c') :
    Ledger (v.attach i b c') claim (update home b (some (.held i))) := by
  obtain ⟨hkc, hi, hd⟩ := L.unique hb hc
  have hsi : c'.inc.sock = c.inc.sock := hs .inc
  have hsd : c'.dst.sock = c.dst.sock := hs .dst
  have hmine : ∀ s, claim (.conn b s) = some (side c' s).sock := by
    intro s
    cases s with
    | inc => exact hi.trans (congrArg some hsi.symm)
    | dst => exact (hd hd0).trans (congrArg some hsd.symm)
  have hne : c'.inc.sock ≠ c'.dst.sock := L.sound.ne (hmine .inc) (hmine .dst) (by simp)
  have hold : ∀ {b' j}, home b' = some (.held j) → b' ≠ b := by
    intro b' j hb' he
    rw [he, hb] at hb'
    cases hb'
  refine ⟨L.sound, L.pos, ?_, ?_, ?_, ?_, ?_, L.nodup, L.client, L.server, L.unconnected, L.pipes⟩
  · intro b' h hb'
    by_cases he : b' = b
    · subst he
      exact ⟨c', by simp [View.attach], hk hkc, hmine .inc, fun _ => hmine .dst⟩
    · rw [update_of_ne he] at hb'
      obtain ⟨c0, h0, hrest⟩ := L.block hb'
      exact ⟨c0, by simpa [View.attach, he] using h0, hrest⟩
  · intro b' c0 h0
    exact L.below_set (L.below hc) h0
  · intro b' j c0 hb' h0
    rcases update_eq_some hb' with ⟨rfl, hx⟩ | ⟨he, hb'⟩
    · simp only [Option.some.injEq, Home.held.injEq] at hx
      subst hx
      simp only [View.attach, update_self, Option.some.injEq] at h0
      subst h0
      refine ⟨hsd ▸ hd0, fun s => ?_⟩
      cases s with
      | inc => simp [View.attach, side, hne, ptr, Side.other]
      | dst => simp [View.attach, side, ptr, Side.other]
    · have h0' : v.heap b' = some c0 := by simpa [View.attach, he] using h0
      obtain ⟨h0d, hr⟩ := L.held hb' h0'
      refine ⟨h0d, fun s => ?_⟩
      have hni : (side c0 s).sock ≠ c'.inc.sock :=
        L.sound.ne (L.claims hb' h0' s) (hmine .inc) (by simp [he])
      have hnd : (side c0 s).sock ≠ c'.dst.sock :=
        L.sound.ne (L.claims hb' h0' s) (hmine .dst) (by simp [he])
      by_cases hj : j = i
      · subst hj
        simpa [View.attach, hni, hnd] using hr s
      · simpa [View.attach, hj] using hr s
  · intro j fd p hr
    have hnew : ∀ s, fd = (side c' s).sock → j = i → ∃ b' c0 s,
        update home b (some (.held i)) b' = some (.held j) ∧
          (v.attach i b c').heap b' = some c0 ∧ fd = (side c0 s).sock := by
      intro s hfd hj
      exact ⟨b, c', s, by simp [hj], by simp [View.attach], hfd⟩
    have hrest : v.routes j fd = some p → ∃ b' c0 s,
        update home b (some (.held i)) b' = some (.held j) ∧
          (v.attach i b c').heap b' = some c0 ∧ fd = (side c0 s).sock := by
      intro hr
      obtain ⟨b', c0, s, hb', h0, hfd⟩ := L.routed hr
      have he := hold hb'
      exact ⟨b', c0, s, by simpa [he] using hb', by simpa [View.attach, he] using h0, hfd⟩
    by_cases hj : j = i
    · subst hj
      simp only [View.attach, update_self] at hr
      rcases update_eq_some hr with ⟨hfd, _⟩ | ⟨_, hr⟩
      · exact hnew .dst hfd rfl
      · rcases update_eq_some hr with ⟨hfd, _⟩ | ⟨_, hr⟩
        · exact hnew .inc hfd rfl
        · exact hrest hr
    · simp only [View.attach, update_of_ne hj] at hr
      exact hrest hr
  · intro b' j
    have hq := L.queued (b := b') (i := j)
    by_cases he : b' = b
    · subst he
      simpa [View.attach, hb] using hq
    · simpa [View.attach, he] using hq

/-- The pool takes the first block out of its pipe. -/
theorem Ledger.pop (L : Ledger v claim home) (hq : v.queue i = b :: q) :
    home b = some (.queued i) ∧
    Ledger { v with queue := update v.queue i q } claim (update home b (some .hand)) := by
  have hb : home b = some (.queued i) := L.queued.mp (hq ▸ List.mem_cons_self)
  have hnd := hq ▸ L.nodup i
  have hold : ∀ {b' j}, home b' = some (.held j) → b' ≠ b := by
    intro b' j hb' he
    rw [he, hb] at hb'
    cases hb'
  refine ⟨hb, L.sound, L.pos, ?_, L.below, ?_, ?_, ?_, ?_, L.client, L.server, L.unconnected, L.pipes⟩
  · intro b' h hb'
    rcases update_eq_some hb' with ⟨rfl, _⟩ | ⟨_, hb'⟩
    · exact L.block hb
    · exact L.block hb'
  · intro b' j c0 hb' h0
    rcases update_eq_some hb' with ⟨_, hx⟩ | ⟨_, hb'⟩
    · cases hx
    · exact L.held hb' h0
  · intro j fd p hr
    obtain ⟨b', c0, s, hb', h0, hfd⟩ := L.routed hr
    exact ⟨b', c0, s, by simpa [hold hb'] using hb', h0, hfd⟩
  · intro b' j
    have hq' := L.queued (b := b') (i := j)
    by_cases hj : j = i
    · subst hj
      rw [hq] at hq'
      by_cases he : b' = b
      · subst he
        simpa using (List.nodup_cons.mp hnd).1
      · simpa [he] using hq'
    · by_cases he : b' = b
      · subst he
        have hji : i ≠ j := fun h => hj h.symm
        simpa [hj, hb, hji] using hq'
      · simpa [hj, he] using hq'
  · intro j
    by_cases hj : j = i
    · subst hj
      simpa using (List.nodup_cons.mp hnd).2
    · simpa [hj] using L.nodup j

/-- The pool `i` closes its pipe. -/
theorem Ledger.shut (L : Ledger v claim home) (hp : v.pipe i = some fd) :
    Ledger { v with pipe := update v.pipe i none, isOpen := update v.isOpen fd false }
      (update claim (.pipe i) none) home where
  sound := (L.sound.drop _).retire (drop_unclaimed L.sound (L.pipes hp))
  pos := fun ho => L.pos (update_some ho).2
  block := fun hb => by simpa using L.block hb
  below := L.below
  held := L.held
  routed := L.routed
  queued := L.queued
  nodup := L.nodup
  client := fun hf => by simpa using L.client hf
  server := fun hf => by simpa using L.server hf
  unconnected := L.unconnected
  pipes := by
    intro j fd' hf
    rcases update_eq_some hf with ⟨_, hx⟩ | ⟨hj, hf⟩
    · cases hx
    · simpa [hj] using L.pipes hf

/-- The listener goes on with descriptors it holds. -/
theorem Ledger.listen (L : Ledger v claim home) (l : Listener)
    (hc : ∀ {fd}, clientFd l = some fd → claim .client = some fd)
    (hs : ∀ {fd}, serverFd l = some fd → claim .server = some fd)
    (hu : ∀ {inc a sock da}, l = .chosen inc a sock da false → sock < 0) :
    Ledger { v with listener := l } claim home :=
  { L with client := hc, server := hs, unconnected := hu }

/-- What the idle listener holds may change, whatever else is open then. -/
theorem Ledger.holds (L : Ledger v claim home) (hl : v.listener = .idle) (o : Owner)
    (ho : o = .client ∨ o = .server) (x : Option Fd) (hs : Sound (update claim o x) isOpen)
    (hp : ∀ {o' fd}, update claim o x o' = some fd → 0 < fd) :
    Ledger { v with isOpen := isOpen } (update claim o x) home := by
  have hconn : ∀ b s, Owner.conn b s ≠ o := by
    rcases ho with rfl | rfl <;> simp
  have hpipe : ∀ i, Owner.pipe i ≠ o := by
    rcases ho with rfl | rfl <;> simp
  refine { L with sound := hs, pos := hp, block := ?_, client := ?_, server := ?_, pipes := ?_ }
  · intro b h hb
    simpa [hconn] using L.block hb
  · intro fd' hx
    simp [hl, clientFd] at hx
  · intro fd' hx
    simp [hl, serverFd] at hx
  · intro i fd' hx
    simpa [hpipe] using L.pipes hx

/-- The idle listener opens a descriptor, for the client or for the server. -/
theorem Ledger.opens (L : Ledger v claim home) (hl : v.listener = .idle) (o : Owner)
    (ho : o = .client ∨ o = .server) (hp : 0 < fd) (hf : v.isOpen fd = false) :
    Ledger { v with isOpen := update v.isOpen fd true } (update claim o (some fd)) home := by
  refine L.holds hl o ho (some fd) (L.sound.create hf o) ?_
  intro o' fd' h'
  rcases update_eq_some h' with ⟨_, hx⟩ | ⟨_, h'⟩
  · simp only [Option.some.injEq] at hx
    exact hx ▸ hp
  · exact L.pos h'

/-- The idle listener closes a descriptor it still holds. -/
theorem Ledger.closes (L : Ledger v claim home) (hl : v.listener = .idle) (o : Owner)
    (ho : o = .client ∨ o = .server) (hf : claim o = some fd) :
    Ledger { v with isOpen := update v.isOpen fd false } (update claim o none) home :=
  L.holds hl o ho none ((L.sound.drop o).retire (drop_unclaimed L.sound hf)) fun h' => L.pos (update_some h').2

/-- A block is allocated; nobody serves it yet. -/
theorem Ledger.alloc (L : Ledger v claim home) (c : Conn) :
    Ledger { v with heap := update v.heap v.next (some c), next := v.next + 1 } claim home := by
  refine { L with block := ?_, below := ?_, held := ?_, routed := ?_ }
  · intro b h hb
    obtain ⟨c0, h0, hrest⟩ := L.block hb
    have hne : b ≠ v.next := Nat.ne_of_lt (L.below h0)
    exact ⟨c0, by simpa [hne] using h0, hrest⟩
  · intro b c0 h0
    rcases update_eq_some h0 with ⟨rfl, _⟩ | ⟨_, h0⟩
    · exact Nat.lt_succ_self _
    · exact Nat.lt_succ_of_lt (L.below h0)
  · intro b j c0 hb h0
    have hne : b ≠ v.next := Nat.ne_of_lt (L.home_below hb)
    exact L.held hb (by simpa [hne] using h0)
  · intro j fd p hr
    obtain ⟨b, c0, s, hb, h0, hfd⟩ := L.routed hr
    have hne : b ≠ v.next := Nat.ne_of_lt (L.below h0)
    exact ⟨b, c0, s, hb, by simpa [hne] using h0, hfd⟩

/-- A block is handed to the pool `i` through its pipe, with the listener's
descriptors. -/
theorem Ledger.enqueue (L : Ledger v claim home) (hl : v.listener = .idle) (hb : home b = none)
    (hc : v.heap b = some c) (hk : Kinds c) (hci : claim .client = some c.inc.sock)
    (hcd : 0 ≤ c.dst.sock → claim .server = some c.dst.sock) (i : Nat) :
    ∃ claim', Ledger { v with queue := update v.queue i (v.queue i ++ [b]) } claim'
      (update home b (some (.queued i))) := by
  -- the client's descriptor goes over in any case, the server's if there is one
  let claim1 := update (update claim .client none) (.conn b .inc) (some c.inc.sock)
  let claim2 := if 0 ≤ c.dst.sock then
    update (update claim1 .server none) (.conn b .dst) (some c.dst.sock) else claim1
  have hsound : Sound claim2 v.isOpen := by
    have h1 : Sound claim1 v.isOpen := L.sound.pass hci _
    by_cases h0 : 0 ≤ c.dst.sock
    · simp only [claim2, h0, ↓reduceIte]
      exact h1.pass (by simp [claim1, hcd h0]) _
    · simpa only [claim2, h0, ↓reduceIte] using h1
  have hpos : ∀ {o fd}, claim2 o = some fd → 0 < fd := by
    intro o fd ho
    have h1 : ∀ {o fd}, claim1 o = some fd → 0 < fd := by
      intro o fd ho
      rcases update_eq_some ho with ⟨_, hx⟩ | ⟨_, ho⟩
      · simp only [Option.some.injEq] at hx
        exact hx ▸ L.pos hci
      · exact L.pos (update_some ho).2
    by_cases h0 : 0 ≤ c.dst.sock
    · simp only [claim2, h0, ↓reduceIte] at ho
      rcases update_eq_some ho with ⟨_, hx⟩ | ⟨_, ho⟩
      · simp only [Option.some.injEq] at hx
        exact hx ▸ L.pos (hcd h0)
      · exact h1 (update_some ho).2
    · simp only [claim2, h0, ↓reduceIte] at ho
      exact h1 ho
  have hother : ∀ b' s, b' ≠ b → claim2 (.conn b' s) = claim (.conn b' s) := by
    intro b' s hne
    by_cases h0 : 0 ≤ c.dst.sock <;> simp [claim2, claim1, h0, hne]
  refine ⟨claim2, { L with
    sound := hsound, pos := hpos, block := ?_, held := ?_, routed := ?_, queued := ?_, nodup := ?_
    client := ?_, server := ?_, pipes := ?_ }⟩
  · intro b' h hb'
    rcases update_eq_some hb' with ⟨rfl, _⟩ | ⟨hne, hb'⟩
    · refine ⟨c, hc, hk, ?_, ?_⟩
      · by_cases h0 : 0 ≤ c.dst.sock <;> simp [claim2, claim1, h0]
      · intro h0
        simp [claim2, h0]
    · rw [hother b' .inc hne, hother b' .dst hne]
      exact L.block hb'
  · intro b' j c0 hb' h0
    rcases update_eq_some hb' with ⟨_, hx⟩ | ⟨_, hb'⟩
    · cases hx
    · exact L.held hb' h0
  · intro j fd p hr
    obtain ⟨b', c0, s, hne, hb', h0, hfd⟩ := L.routed_apart (b := b) (by simp [hb]) hr
    exact ⟨b', c0, s, by simpa [hne] using hb', h0, hfd⟩
  · intro b' j
    have hq := L.queued (b := b') (i := j)
    by_cases hne : b' = b
    · subst hne
      by_cases hj : j = i
      · simp [hj]
      · have hji : i ≠ j := fun h => hj h.symm
        simpa [hj, hji, hb] using hq
    · by_cases hj : j = i
      · subst hj
        simpa [hne] using hq
      · simpa [hj, hne] using hq
  · intro j
    by_cases hj : j = i
    · subst hj
      have hnot : b ∉ v.queue j := by
        intro hm
        rw [L.queued, hb] at hm
        cases hm
      have hnd := L.nodup j
      simp only [update_self, List.nodup_append]
      refine ⟨hnd, by simp, ?_⟩
      intro x hx y hy hxy
      simp only [List.mem_singleton] at hy
      exact hnot (hy ▸ hxy ▸ hx)
    · simpa [hj] using L.nodup j
  · intro fd hx
    simp [hl, clientFd] at hx
  · intro fd hx
    simp [hl, serverFd] at hx
  · intro j fd hx
    have hp := L.pipes hx
    by_cases h0 : 0 ≤ c.dst.sock <;> simpa [claim2, claim1, h0] using hp

end ops

end Glb.Proofs.Ownership
