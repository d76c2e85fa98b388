import Glb.Proofs.Registry

namespace Glb.Proofs.Blocks
open Function PoolFrame PoolEvents DaemonSteps Ownership DaemonLedger Registry

variable {build : Build} {cnf : Cnf} {ctrl : Ctrl} {d d' : Daemon} {w u : World} {op : DaemonOp}
variable {i b : Nat} {c c' : Conn}

section asked

/-- Data that a step reads from a descriptor of a pool, and what their `send ()` does. -/
structure DataRead where
  pool : Nat
  fd : Fd
  avail : List UInt8
  send : SendOut

def dataRead : DaemonOp → Option DataRead
  | .read i fd (.data avail) send => some ⟨i, fd, avail, send⟩
  | _ => none

def readFd : DaemonOp → Option (Nat × Fd)
  | .read i fd _ _ => some (i, fd)
  | _ => none

def writeSend : DaemonOp → Option SendOut
  | .write _ _ _ send => some send
  | _ => none

def changedDst : DaemonOp → Option Dst
  | .request (.change dst) _ => some dst
  | _ => none

/-- The steps that have connections closed. -/
def closing : DaemonOp → Bool
  | .drop _ => true
  | .destroy => true
  | _ => false

end asked

def registeredConn (c : Conn) : Conn := ⟨registered c.inc, registered c.dst⟩

/-- What a pool thread may make of a connection that stays in memory. -/
inductive Touched (w : World) (i b : Nat) : DaemonOp → Conn → Conn → Prop
  | read {c s avail bytes send} (hh : Held w b c) (hk : Kinds c)
    (hb : received (side c s) avail = bytes) (h0 : 0 < bytes.length)
    (hs : Spares (side (filled c s bytes) s) send) :
    Touched w i b (.read i (side c s.other).sock (.data avail) send) c
      (stall (sentConn (filled c s bytes) s send false) s)
  | settled {c s env send} (hk : Kinds c) (h0 : (side (settled c s) s).total = 0) :
    Touched w i b (.write i (side c s).sock env send) c (settled c s)
  | written {c s env send} (hk : Kinds c) (h0 : (side (settled c s) s).total ≠ 0)
    (hs : Spares (side (settled c s) s) send) :
    Touched w i b (.write i (side c s).sock env send) c (sentConn (settled c s) s send true)
  | moved {c env send} (addr : SockAddr) (fd : Fd) (hp : 0 < fd) (hi : c.dst.kind = .incomplete) :
    Touched w i b (.write i c.dst.sock env send) c (registeredConn (onSock (retarget c addr) fd))
  | added {c c1 w1 env} (hs : Socketed w c w1 c1) : Touched w i b (.ctl i env) c (registeredConn c1)

theorem removals_heap (hr : Removals cnf w u) (hc : u.heap b = some c) : w.heap b = some c := by
  refine removals_keep (fun v => ∀ c, v.heap b = some c → w.heap b = some c) hr ?_ ?_ ?_
    (fun _ h => h) c hc
  · intro v v' hb hv c hc
    have hheap : v'.heap = v.heap := congrArg (fun w => w.heap) hb
    exact hv c (hheap ▸ hc)
  · intro v b' c' _ _ hv c hc
    rw [gone_heap] at hc
    exact hv c (update_none hc)
  · intro v b' c' _ _ _ hv c hc
    exact hv c hc

theorem popped_heap (hr : bare w1 = bare (popped w q)) : w1.heap = w.heap :=
  congrArg (fun w => w.heap) hr

/-- A connection that goes after it was rewritten leaves the other blocks. -/
theorem ended_heap {notify : Bool} (hc : (gone cnf (putConn w b c) b c notify).heap b' = some c') :
    b' ≠ b ∧ w.heap b' = some c' := by
  rw [gone_heap] at hc
  rcases update_eq_some hc with ⟨_, hx⟩ | ⟨hne, hc⟩
  · cases hx
  · exact ⟨hne, (update_of_ne hne _ w.heap).symm.trans hc⟩

theorem read_touched (hh : Held w b c) (hk : Kinds c) (hf : ReadFate cnf w b c s recv send u)
    (hc : u.heap b' = some c') :
    w.heap b' = some c' ∨ ∃ c0, w.heap b' = some c0 ∧
      Touched w i b' (.read i (side c s.other).sock recv send) c0 c' := by
  cases hf with
  | full _ => exact Or.inl hc
  | nothing _ => exact Or.inl hc
  | closed _ _ =>
    rw [gone_heap] at hc
    exact Or.inl (update_none hc)
  | detach _ _ _ => exact Or.inl hc
  | passed avail bytes hr hb h0 _ hs =>
    rcases update_eq_some hc with ⟨rfl, hx⟩ | ⟨_, hc⟩
    · simp only [Option.some.injEq] at hx
      subst hx hr
      exact Or.inr ⟨c, hh.block, .read hh hk hb h0 hs⟩
    · exact Or.inl hc
  | broken _ _ _ _ _ =>
    exact Or.inl (ended_heap hc).2

theorem write_touched (hh : Held w b c) (hk : Kinds c) (hf : WriteFate cnf w b c s env send u)
    (hc : u.heap b' = some c') :
    w.heap b' = some c' ∨ ∃ c0, w.heap b' = some c0 ∧
      Touched w i b' (.write i (side c s).sock env send) c0 c' := by
  cases hf with
  | drained h0 =>
    rcases update_eq_some hc with ⟨rfl, hx⟩ | ⟨_, hc⟩
    · simp only [Option.some.injEq] at hx
      exact Or.inr ⟨c, hh.block, hx ▸ .settled hk h0⟩
    · exact Or.inl hc
  | passed h0 hs =>
    rcases update_eq_some hc with ⟨rfl, hx⟩ | ⟨_, hc⟩
    · simp only [Option.some.injEq] at hx
      exact Or.inr ⟨c, hh.block, hx ▸ .written hk h0 hs⟩
    · exact Or.inl hc
  | broken _ => exact Or.inl (ended_heap hc).2
  | refused _ _ _ => exact Or.inl (ended_heap hc).2
  | moved addr fd hs hi _ hp _ =>
    subst hs
    rw [attached_heap] at hc
    rcases update_eq_some hc with ⟨rfl, hx⟩ | ⟨_, hc⟩
    · simp only [Option.some.injEq] at hx
      exact Or.inr ⟨c, hh.block, hx ▸ .moved addr fd hp hi⟩
    · exact Or.inl hc
  | abandoned _ _ _ _ _ _ => exact Or.inl (update_none (f := w.heap) hc)

theorem fate_touched (hf : Fate cnf i w op u) (hc : u.heap b = some c') :
    w.heap b = some c' ∨ ∃ c, w.heap b = some c ∧ Touched w i b op c c' := by
  cases hf with
  | read hh hk hf => exact read_touched hh hk hf hc
  | write hh hk hf => exact write_touched hh hk hf hc
  | lost env hp hc0 hd hl => exact Or.inl (update_none (f := w.heap) hc)
  | @added b0 c0 q w1 c1 env hp hc0 hs =>
    have hw1 : w1.heap = w.heap := by
      rcases hs with ⟨_, rfl, _⟩ | ⟨_, fd, _, _, rfl, _⟩ <;> rfl
    rw [attached_heap] at hc
    rcases update_eq_some hc with ⟨rfl, hx⟩ | ⟨_, hc⟩
    · simp only [Option.some.injEq] at hx
      have hsock : Touched w i b (.ctl i env) c0 (registeredConn c1) := by
        rcases hs with ⟨h0, _, rfl⟩ | ⟨h0, fd, hpos, hfree, _, rfl⟩
        · exact .added (Or.inl ⟨h0, rfl, rfl⟩)
        · exact .added (Or.inr ⟨h0, fd, hpos, hfree, rfl, rfl⟩)
      exact Or.inr ⟨c0, hc0, hx ▸ hsock⟩
    · exact Or.inl (hw1 ▸ hc)
  | stats env hp => exact Or.inl hc
  | dropped env hp hw hr => exact Or.inl (popped_heap hw ▸ removals_heap hr hc)
  | shutdown env hp hw hr => exact Or.inl (popped_heap hw ▸ removals_heap hr hc)

/-- Where a connection found in memory after a step comes from. -/
inductive Origin (d : Daemon) (op : DaemonOp) (b : Nat) (c' : Conn) : Prop
  | same (h : d.heap b = some c')
  | touched {i p c} (hp : d.pools[i]? = some p) (h : d.heap b = some c)
    (ht : Touched (d.world p) i b op c c')
  | new {inc addr sock dst complete} (hl : d.listener = .chosen inc addr sock dst complete)
    (hb : b = d.nextBlock) (hc : c' = newConn inc addr sock dst complete)

theorem allocated_origin (hl : d.listener = .chosen inc addr sock dst complete)
    (hc : (allocated d (newConn inc addr sock dst complete)).heap b = some c') :
    Origin d op b c' := by
  rcases update_eq_some hc with ⟨hb, hx⟩ | ⟨_, hc⟩
  · simp only [Option.some.injEq] at hx
    exact .new hl hb hx.symm
  · exact .same hc

theorem step_origin (L : Ledger (view d) claim home)
    (h : daemonStep build cnf ctrl d op = some d') (hc : d'.heap b = some c') : Origin d op b c' := by
  cases step_cases L h with
  | accept _ _ _ h =>
    cases h <;> exact .same hc
  | connected _ h =>
    cases h <;> exact .same hc
  | addConn hl h =>
    cases h with
    | noMemory => exact .same hc
    | unsent => exact allocated_origin hl hc
    | queued => exact allocated_origin hl hc
  | @pool _ _ i p u w' hs =>
    obtain ⟨hp, _, hf, hb, rfl⟩ := hs
    have hheap : w'.heap = u.heap := congrArg (fun w => w.heap) hb
    have hc' : u.heap b = some c' := hheap ▸ hc
    rcases fate_touched hf hc' with h0 | ⟨c, h0, ht⟩
    · exact .same h0
    · exact .touched hp h0 ht
  | request h =>
    obtain ⟨_, hh, _⟩ := request_frame h
    exact .same (hh ▸ hc)
  | drop dst => exact .same hc
  | destroy => exact .same hc

/-- A scan leaves alone what no descriptor leads to. -/
theorem removals_other (hr : Removals cnf w u)
    (hb : ∀ {fd q}, w.routeMap fd = some q → q.block ≠ b) : u.heap b = w.heap b := by
  have hkeep : ∀ {v : World} {b' c'}, Held v b' c' →
      (∀ {fd q}, v.routeMap fd = some q → q.block ≠ b) → b ≠ b' := by
    intro v b' c' hh hv he
    exact hv (hh.route .inc) (by simp [he])
  have hunroute : ∀ {f : Fd → Option EndPtr} {x y fd : Fd} {q},
      update (update f x none) y none fd = some q → f fd = some q :=
    fun h => update_none (update_none h)
  refine (removals_keep (fun v => (∀ {fd q}, v.routeMap fd = some q → q.block ≠ b) ∧
    v.heap b = w.heap b) hr ?_ ?_ ?_ ⟨hb, rfl⟩).2
  · rintro v v' hbare ⟨hv, hh⟩
    have hmap : v'.routeMap = v.routeMap := congrArg (fun w => w.routeMap) hbare
    have hheap : v'.heap = v.heap := congrArg (fun w => w.heap) hbare
    exact ⟨fun hq => hv (hmap ▸ hq), hheap ▸ hh⟩
  · rintro v b' c' hh' _ ⟨hv, hh⟩
    refine ⟨fun hq => hv (hunroute hq), ?_⟩
    rw [gone_heap, update_of_ne (hkeep hh' hv), hh]
  · rintro v b' c' _ _ _ ⟨hv, hh⟩
    exact ⟨fun hq => hv (hunroute hq), hh⟩

theorem adds_popped (hq : b ∉ adds pipe) (q q' : List PoolCtl) : pipe = .addConn b :: q → q' ≠ q := by
  rintro rfl
  exact absurd (by simp [adds]) hq

/-- A pool changes no block but those it serves and the one it takes from its pipe. -/
theorem fate_other (hf : Fate cnf i w op u) (hb : ∀ {fd q}, w.routeMap fd = some q → q.block ≠ b)
    (hq : ∀ q, w.pipe = .addConn b :: q → u.pipe ≠ q) : u.heap b = w.heap b := by
  have hserved : ∀ {b' c'}, Held w b' c' → b ≠ b' := by
    intro b' c' hh he
    exact hb (hh.route .inc) (by simp [he])
  have hpopped : ∀ {b' q}, w.pipe = .addConn b' :: q → u.pipe = q → b ≠ b' := by
    rintro b' q hp hu rfl
    exact hq q hp hu
  cases hf with
  | read hh hk hf =>
    have hne := hserved hh
    cases hf with
    | full _ => rfl
    | nothing _ => rfl
    | closed _ _ => exact (congrFun (gone_heap _ _ _ _ _) b).trans (update_of_ne hne _ _)
    | detach _ _ _ => rfl
    | passed _ _ _ _ _ _ => exact update_of_ne hne _ _
    | broken _ _ _ _ _ =>
      exact ((congrFun (gone_heap _ _ _ _ _) b).trans (update_of_ne hne _ _)).trans (update_of_ne hne _ _)
  | write hh hk hf =>
    have hne := hserved hh
    cases hf with
    | drained _ => exact update_of_ne hne _ _
    | passed _ => exact update_of_ne hne _ _
    | broken _ =>
      exact ((congrFun (gone_heap _ _ _ _ _) b).trans (update_of_ne hne _ _)).trans (update_of_ne hne _ _)
    | refused _ _ _ =>
      exact ((congrFun (gone_heap _ _ _ _ _) b).trans (update_of_ne hne _ _)).trans (update_of_ne hne _ _)
    | moved _ _ _ _ _ _ _ =>
      rw [attached_heap]
      exact update_of_ne hne _ _
    | abandoned _ _ _ _ _ _ => exact update_of_ne hne _ _
  | lost env hp hc hd hl => exact update_of_ne (hpopped hp rfl) _ _
  | added env hp hc hs =>
    rw [attached_heap]
    rcases hs with ⟨_, rfl, _⟩ | ⟨_, fd, _, _, rfl, _⟩ <;> exact update_of_ne (hpopped hp rfl) _ _
  | stats env hp => rfl
  | dropped env hp hw hr =>
    have hmap : _ = w.routeMap := congrArg (fun w => w.routeMap) hw
    rw [removals_other hr (fun hq => hb (hmap ▸ hq)), popped_heap hw]
  | shutdown env hp hw hr =>
    have hmap : _ = w.routeMap := congrArg (fun w => w.routeMap) hw
    have hu := removals_other hr (fun hq => hb (hmap ▸ hq))
    exact hu.trans (by rw [popped_heap hw])

end Glb.Proofs.Blocks
