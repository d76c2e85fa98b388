import Glb.Proofs.RouterSum
import Mathlib.Algebra.Order.BigOperators.Group.List

namespace Glb.Proofs.HandedOut
open Lib.Keyed Lib.Run Lib.SwapRemove Lib.Tally RouterFrame RouterCore RouterRun RouterTable HeldSlot RouterSum

variable {cnf : Cnf} {s s' : RouterSys} {r r' : Router} {op : SysOp} {id i : Nat} {d : RouterDst}
  {f : SockAddr → Int}

/-- The router with a record of its callers: for each address, how often it was
handed out and not released since. -/
structure Handed where
  sys : RouterSys
  out : SockAddr → Int

def Handed.init (n : Nat) : Handed := ⟨RouterSys.init n, fun _ => 0⟩

/-- The address that a step hands to its caller. -/
def given (cnf : Cnf) (s : RouterSys) : SysOp → Option SockAddr
  | .choose env hint => (glbRouterChooseDst cnf env s.router hint).2
  | .chooseAgain now env hint a => (glbRouterChooseDstAgain cnf now env s.router hint a).2
  | .connected id error _ _ =>
    match s.threads[id]? with
    | some (.dialled p _ _ _) => if error ≠ 0 ∧ error ≠ EINPROGRESS then none else slotAddr s p
    | _ => none
  | _ => none

/-- The address that a step takes back. -/
def takenBack : SysOp → Option SockAddr
  | .disconnect _ a _ => some a
  | .chooseAgain _ _ _ a => some a
  | _ => none

def handedStep (cnf : Cnf) (h : Handed) (op : SysOp) : Option Handed :=
  (sysStep cnf h.sys op).map fun s =>
    ⟨s, fun a => h.out a - mark (takenBack op) a + mark (given cnf h.sys op) a⟩

/-- Whether the address that a step takes back is out. -/
def releases (h : Handed) (op : SysOp) : Bool := (takenBack op).all (fun a => 0 < h.out a)

/-- The address for which a step makes a new entry. -/
def enters (s : RouterSys) : SysOp → Option SockAddr
  | .change env dst _ =>
    if (routerFindDst s.router dst).isNone && !(dst.weight < 0 : Bool) && env.realloc &&
        !routerChangeWaits s.router dst then some dst.addr
    else none
  | .wake env =>
    match s.changer with
    | .waiting dst _ none => if env.realloc && !(s.router.busyCount > 0 : Bool) then some dst.addr else none
    | _ => none
  | _ => none

/-- Whether nobody holds the address for which a step makes a new entry. -/
def entersFree (h : Handed) (op : SysOp) : Bool := (enters h.sys op).all (fun a => h.out a = 0)

/-- The router in the middle of a call, between a release and the next choice. -/
def midRelease (cnf : Cnf) (s : RouterSys) : SysOp → Option Router
  | .chooseAgain now _ _ a => some (glbRouterDisconnect cnf now s.router a true)
  | .connected id error _ _ =>
    match s.threads[id]? with
    | some (.dialled p _ _ _) =>
      if error ≠ 0 ∧ error ≠ EINPROGRESS then some (s.router.count p.idx (-1)) else none
    | _ => none
  | _ => none

section counted

/-- No address is listed twice, and `f` says how many connections are counted for
each that is listed. -/
structure Counted (r : Router) (f : SockAddr → Int) : Prop where
  unique : Unique r
  conns : ∀ d ∈ r.dst, d.conns = f (dstAddr d)

theorem Counted.congr (h : Counted r f) (hg : ∀ a, g a = f a) : Counted r g :=
  ⟨h.unique, fun d hd => (h.conns d hd).trans (hg (dstAddr d)).symm⟩

theorem Counted.counters (h : Counted r f) (b w : Int) :
    Counted { r with busyCount := b, waitCount := w } f := ⟨h.unique, h.conns⟩

theorem Counted.same (h : Counted r f) (hs : SameUpTo core r r') : Counted r' f := by
  refine ⟨core_unique hs h.unique, ?_⟩
  intro d hd
  obtain ⟨i, hi⟩ := List.mem_iff_getElem?.mp hd
  obtain ⟨e, he, hed⟩ := hs.get hi
  have hc : e.conns = d.conns := (congrArg RouterDst.conns hed :)
  have ha : dstAddr e = dstAddr d := (congrArg dstAddr hed :)
  rw [← hc, ← ha]
  exact h.conns e (List.mem_of_getElem? he)

theorem Counted.count (h : Counted r f) (hd : r.dst[i]? = some d) (n : Int) :
    Counted (r.count i n) (fun a => f a + n * mark (some (dstAddr d)) a) := by
  refine ⟨count_unique i n h.unique, ?_⟩
  intro e he
  rcases (mem_modify h.unique hd).mp he with rfl | ⟨he, hne⟩
  · have hdf := h.conns d (List.mem_of_getElem? hd)
    simp only [dstAddr, mark_some, ↓reduceIte] at hdf ⊢
    omega
  · have hef := h.conns e he
    simp only [mark_some, hne, ↓reduceIte]
    omega

theorem Counted.choose (h : Counted r f) (hr : routerChooseDst cnf env r hint = (r', ret)) :
    Counted r' (fun a => f a + mark (r'.addrAt ret) a) := by
  rcases choose_picked hr with ⟨rfl, hp⟩ | ⟨q, i, rfl, hp, rfl⟩
  · apply (h.same hp.same).congr
    intro a
    simp [Router.addrAt]
  · have hi : i < q.dst.length := hp.same.length ▸ hp.listed i rfl
    have hd := List.getElem?_eq_getElem hi
    apply ((h.same hp.same).count hd 1).congr
    intro a
    simp [Router.addrAt, Router.count, hd, dstAddr]

theorem Counted.undo (h : Counted r f) (hd : r.dst[i]? = some d) (cnf : Cnf) (now : Int) :
    Counted (routerDstFailed cnf now (r.count i (-1)) i) (fun a => f a - mark (some (dstAddr d)) a) := by
  apply ((h.count hd (-1)).same (failed_core cnf now _ i)).congr
  intro a
  omega

/-- A release is counted if the address is listed, and there is nothing to count if
it is not. -/
theorem Counted.disconnect (h : Counted r f) (cnf : Cnf) (now : Int) (a : SockAddr) (failed : Bool) :
    Counted (glbRouterDisconnect cnf now r a failed) (fun x => f x - mark (some a) x) := by
  have hc := disconnect_cases cnf now r a failed
  generalize glbRouterDisconnect cnf now r a failed = q at hc ⊢
  cases hc with
  | unlisted hun =>
    refine ⟨h.unique, ?_⟩
    intro d hd
    have hne : dstAddr d ≠ a := hun d hd
    simp [h.conns d hd, mark_some, hne]
  | counted hd ha =>
    apply (h.count hd (-1)).congr
    intro x
    rw [show dstAddr _ = a from ha]
    omega
  | failed hd ha =>
    apply (h.undo hd cnf now).congr
    intro x
    rw [show dstAddr _ = a from ha]

theorem Counted.change (h : Counted r f) (cnf : Cnf) (env : ChangeEnv) (dst : Dst) (ctx : Option CtxId)
    (hnew : routerFindDst r dst = none → ¬ dst.weight < 0 → env.realloc = true → f dst.addr = 0) :
    Counted (glbRouterChangeDst cnf env r dst ctx).1 f := by
  rw [change_dst_eq]
  cases he : routerEdit env r dst ctx with
  | none => exact h
  | some q =>
    refine Counted.same ?_ (redo_same cnf env.now q).core
    cases edit_cases he with
    | added hf hw hm =>
      refine ⟨(add_table h.unique hf env.timeNow).1, ?_⟩
      intro d hd
      rcases List.mem_append.mp hd with hd | hd
      · exact h.conns d hd
      · have hd' : d = routerNewDst dst ctx env.timeNow := List.mem_singleton.mp hd
        subst hd'
        exact (hnew hf hw hm).symm
    | noMemory _ _ _ => exact h
    | removed _ hd _ _ =>
      refine ⟨(remove_table h.unique hd).1, ?_⟩
      intro e he
      exact h.conns e ((swapRemove_perm r.dst _ _ hd).mem_iff.mpr (List.mem_cons_of_mem _ he))
    | @weighed i _ _ hd _ _ _ =>
      refine ⟨(set_weight_table h.unique hd dst.weight).1, ?_⟩
      intro e he
      have hm : (routerSetWeight r i dst.weight).dst.map (fun d => (dstAddr d, d.conns)) =
          r.dst.map (fun d => (dstAddr d, d.conns)) := map_modify _ _ _ _ (fun _ => rfl)
      obtain ⟨c, hc, hce⟩ := mem_of_map_eq hm he
      simp only [Prod.mk.injEq] at hce
      rw [← hce.1, ← hce.2]
      exact h.conns c hc

end counted

section holders

/-- The address that a connecting thread counts on. -/
def pcAddr : ConnectPc → Option SockAddr
  | .holding _ _ chose => chose
  | .dialled _ _ chose _ => chose
  | _ => none

theorem out_addr : pcAddr .out = none := rfl

/-- How many threads are connecting to an address. -/
def holders (s : RouterSys) (a : SockAddr) : Int := s.threads.countP (fun pc => pcAddr pc = some a)

theorem holders_goto (hpc : s.threads[id]? = some pc) (pc' : ConnectPc) (a : SockAddr) :
    holders (s.goto id pc') a = holders s a - mark (pcAddr pc) a + mark (pcAddr pc') a := by
  unfold holders RouterSys.goto mark
  rw [countP_set_int _ hpc pc']
  simp only [decide_eq_true_eq]

/-- As `holders_goto`, for a thread that leaves the router as `r`. -/
theorem holders_leave (hpc : s.threads[id]? = some pc) (pc' : ConnectPc) (r : Router) (a : SockAddr) :
    holders { s.goto id pc' with router := r } a =
      holders s a - mark (pcAddr pc) a + mark (pcAddr pc') a := holders_goto hpc pc' a

theorem holders_hold (hpc : s.threads[id]? = some pc) (r : Router) (hint : UInt32) (i : Nat)
    (a : SockAddr) :
    holders (s.hold id r hint i) a = holders s a - mark (pcAddr pc) a + mark (r.addrAt (some i)) a :=
  holders_goto hpc _ a

theorem holders_nonneg (s : RouterSys) (a : SockAddr) : 0 ≤ holders s a := Int.natCast_nonneg _

theorem idle_addr (h : pc.idle = true) : pcAddr pc = none := by
  cases pc with
  | out => rfl
  | done _ _ => rfl
  | holding _ _ _ => cases h
  | dialled _ _ _ _ => cases h

/-- With no thread inside, nobody is connecting. -/
theorem holders_none (hh : SlotsHeld s) (hb : ¬ 0 < s.router.busyCount) (a : SockAddr) : holders s a = 0 := by
  have hcount : s.threads.countP busyPc = 0 := by
    have := hh.busy
    omega
  have hz : s.threads.countP (fun pc => pcAddr pc = some a) = 0 := by
    apply List.countP_eq_zero.mpr
    intro pc hpc
    have hidle : pc.idle = true := by
      simpa [busyPc] using List.countP_eq_zero.mp hcount pc hpc
    simp [idle_addr hidle]
  simp [holders, hz]

end holders

section steps
variable {o : SockAddr → Int}

/-- A new entry starts at zero, which is right when nobody holds its address. -/
theorem fresh_entry (hh : SlotsHeld s) (hb : ¬ 0 < s.router.busyCount) (ho : o a = 0) :
    o a + holders s a = 0 := by
  rw [ho, holders_none hh hb a]
  rfl

theorem given_failed (hpc : s.threads[id]? = some (.dialled p hint chose peer))
    (he : error ≠ 0 ∧ error ≠ EINPROGRESS) : given cnf s (.connected id error now env) = none := by
  simp [given, hpc, he]

/-- One step of the threads: the table counts what is out and what is being
connected. -/
theorem step_counted (hh : SlotsHeld s) (h : Counted s.router (fun a => o a + holders s a))
    (hnew : ∀ a, enters s op = some a → o a = 0) (hstep : sysStep cnf s op = some s') :
    Counted s'.router (fun a => (o a - mark (takenBack op) a + mark (given cnf s op) a) + holders s' a) := by
  cases turn_cases hstep with
  | waits _ _ =>
    apply (h.counters _ _).congr
    intro a
    simp [takenBack, given, holders]
  | @changes dst env ctx hc hw =>
    refine (h.change cnf env dst ctx ?_).congr ?_
    · intro hf hneg hm
      have hb : ¬ 0 < s.router.busyCount := by
        intro hb
        simp [routerChangeWaits, hf, hneg, hb] at hw
      exact fresh_entry hh hb (hnew dst.addr (by simp [enters, hf, hneg, hm, hw]))
    · intro a
      simp [takenBack, given, holders, RouterSys.changed]
  | sleeps _ =>
    apply h.congr
    intro a
    simp [takenBack, given]
  | @wakes dst ctx found env hc hb =>
    obtain ⟨hf, hn⟩ := hh.found _ _ _ hc
    rw [apply_change (r := { s.router with waitCount := s.router.waitCount - 1 }) hf hn]
    refine ((h.counters _ _).change cnf env dst ctx ?_).congr ?_
    · intro hnone hneg hm
      have hfound : found = none := hf.symm.trans hnone
      subst hfound
      exact fresh_entry hh hb (hnew dst.addr (by simpa [enters, hc, hm] using hb))
    · intro a
      simp [takenBack, given, holders, RouterSys.changed]
  | chooses hr =>
    apply (h.choose hr).congr
    intro a
    simp only [takenBack, mark_none, given, glbRouterChooseDst, hr, holders]
    omega
  | disconnects =>
    apply (h.disconnect cnf _ _ _).congr
    intro a
    simp only [takenBack, mark_none, given, holders]
    omega
  | again hr =>
    apply ((h.disconnect cnf _ _ true).choose hr).congr
    intro a
    simp only [takenBack, given, choose_again_eq, glbRouterChooseDst, hr, holders]
    omega
  | starts hpc hi hr =>
    apply ((h.counters _ _).choose hr).congr
    intro a
    simp only [takenBack, given, mark_none, holders_hold hpc, idle_addr hi]
    omega
  | refused hpc hi hr =>
    apply (((h.counters _ _).choose hr).counters _ _).congr
    intro a
    simp only [takenBack, given, mark_none, holders_leave hpc, idle_addr hi, out_addr, Router.addrAt,
      Option.bind_none, Option.map_none]
    omega
  | dials hpc _ =>
    apply h.congr
    intro a
    simp only [takenBack, given, mark_none, holders_goto hpc, pcAddr]
    omega
  | retries hpc hd he hr =>
    obtain ⟨hc, ha⟩ := hh.slots _ (List.mem_of_getElem? hpc)
    apply ((h.undo (slot_listed hd) cnf _).choose hr).congr
    intro a
    rw [slotAddr, hd, Option.map_some] at ha
    simp only [takenBack, given_failed hpc he, mark_none, holders_hold hpc, pcAddr, hc, ha]
    omega
  | fails hpc hd he hr =>
    obtain ⟨hc, ha⟩ := hh.slots _ (List.mem_of_getElem? hpc)
    apply (((h.undo (slot_listed hd) cnf _).choose hr).counters _ _).congr
    intro a
    rw [slotAddr, hd, Option.map_some] at ha
    simp only [takenBack, given_failed hpc he, mark_none, holders_leave hpc, pcAddr, hc, ha, Router.addrAt,
      Option.bind_none, Option.map_none]
    omega
  | connects hpc hd he =>
    obtain ⟨hc, ha⟩ := hh.slots _ (List.mem_of_getElem? hpc)
    apply (h.counters _ _).congr
    intro a
    simp only [takenBack, given, hpc, he, ↓reduceIte, mark_none, holders_leave hpc, pcAddr, hc, ha]
    omega

end steps

section nonneg

/-- No count is negative and no quotient has divisor zero. -/
structure NonNeg (r : Router) : Prop where
  conns : ∀ d ∈ r.dst, 0 ≤ d.conns
  total : 0 ≤ r.conns
  divisor : ∀ d ∈ r.dst, d.conns + 1 ≠ 0

theorem Counted.nonneg (h : Counted r f) (ha : Accounted r) (hf : ∀ a, 0 ≤ f a) : NonNeg r := by
  have hc : ∀ d ∈ r.dst, 0 ≤ d.conns := by
    intro d hd
    rw [h.conns d hd]
    exact hf _
  refine ⟨hc, ?_, ?_⟩
  · rw [ha.total]
    apply List.sum_nonneg
    intro x hx
    obtain ⟨d, hd, rfl⟩ := List.mem_map.mp hx
    exact hc d hd
  · intro d hd
    have := hc d hd
    omega

/-- What holds between the steps of a run in which nobody releases what they do not
hold and no address that is held is listed anew. -/
structure Squared (h : Handed) : Prop where
  held : SlotsHeld h.sys
  accounted : Accounted h.sys.router
  out : ∀ a, 0 ≤ h.out a
  counted : Counted h.sys.router (fun a => h.out a + holders h.sys a)

theorem squared_init (n : Nat) : Squared (Handed.init n) :=
  ⟨held_init n, ⟨rfl, nofun⟩, fun _ => Int.le_refl 0, ⟨List.nodup_nil, nofun⟩⟩

theorem taken_out (hr : releases h op = true) (ht : takenBack op = some a) : 0 < h.out a := by
  simpa [releases, ht] using hr

/-- What is left after a permitted release is still not negative. -/
theorem left_nonneg {h : Handed} (hb : Squared h) (hr : releases h op = true) (a : SockAddr) :
    0 ≤ h.out a - mark (takenBack op) a := by
  have ho := hb.out a
  by_cases ht : takenBack op = some a
  · have hpos := taken_out hr ht
    simp only [mark, ht, ↓reduceIte]
    omega
  · simp only [mark, ht, ↓reduceIte]
    omega

theorem mark_nonneg (x : Option SockAddr) (a : SockAddr) : 0 ≤ mark x a := by
  unfold mark
  split <;> omega

theorem step_squared {h h' : Handed} (hb : Squared h) (hr : releases h op = true)
    (hn : entersFree h op = true) (hstep : handedStep cnf h op = some h') : Squared h' := by
  obtain ⟨s, hs, rfl⟩ := Option.map_eq_some_iff.mp hstep
  have hnew : ∀ a, enters h.sys op = some a → h.out a = 0 := by
    intro a ha
    simpa [entersFree, ha] using hn
  refine ⟨step_held hb.held hs, step_accounted hb.held hb.accounted hs, ?_,
    step_counted hb.held hb.counted hnew hs⟩
  intro a
  exact Int.add_nonneg (left_nonneg hb hr a) (mark_nonneg _ a)

/-- A release in the middle of a call takes back a connection that is counted. -/
theorem released_nonneg {h : Handed} (hb : Squared h) (hr : releases h op = true)
    (hm : midRelease cnf h.sys op = some r) : NonNeg r := by
  cases op with
  | chooseAgain now env hint a =>
    simp only [midRelease, Option.some.injEq] at hm
    subst hm
    apply (hb.counted.disconnect cnf now a true).nonneg (hb.accounted.disconnect cnf now a true)
    intro x
    have hl := left_nonneg hb hr x
    have hh := holders_nonneg h.sys x
    simp only [takenBack] at hl
    omega
  | connected id error now env =>
    simp only [midRelease] at hm
    split at hm
    · rename_i p hint chose peer hpc
      split at hm
      · simp only [Option.some.injEq] at hm
        subst hm
        obtain ⟨hc, ha⟩ := hb.held.slots _ (List.mem_of_getElem? hpc)
        obtain ⟨d, _, rfl, hd⟩ := slot_get ha
        apply (hb.counted.count hd (-1)).nonneg (hb.accounted.count hd (-1))
        intro x
        have ho := hb.out x
        -- the thread itself is one of the holders
        have hg := holders_nonneg (h.sys.goto id .out) x
        rw [holders_goto hpc, out_addr, mark_none, pcAddr, hc] at hg
        omega
      · cases hm
    · cases hm
  | change _ _ _ => cases hm
  | wake _ => cases hm
  | choose _ _ => cases hm
  | disconnect _ _ _ => cases hm
  | connect _ _ _ => cases hm
  | dial _ => cases hm

end nonneg

/-- As long as no address is listed anew while connections to it are still out, the
counts stay non-negative, also in the middle of a call. -/
theorem conns_nonneg_when_fresh (cnf : Cnf) (n : Nat) (ops : List SysOp)
    (hok : Along (handedStep cnf) (fun h op => releases h op = true ∧ entersFree h op = true)
      (Handed.init n) ops)
    (hrun : exec (handedStep cnf) (Handed.init n) ops = some h) :
    NonNeg h.sys.router ∧
      ∀ op r, releases h op = true → midRelease cnf h.sys op = some r → NonNeg r := by
  have hb : Squared h := by
    apply exec_keeps _ (squared_init n) hok hrun
    intro h op h' hb hc hstep
    exact step_squared hb hc.1 hc.2 hstep
  refine ⟨hb.counted.nonneg hb.accounted ?_, fun op r hr hm => released_nonneg hb hr hm⟩
  intro a
  exact Int.add_nonneg (hb.out a) (holders_nonneg h.sys a)

def handedReached (cnf : Cnf) (n : Nat) (ops : List SysOp) : Handed :=
  (exec (handedStep cnf) (Handed.init n) ops).getD (Handed.init n)

/-- A is removed and listed again while a connection to it is open. -/
def readdA : List SysOp :=
  [listAt 100 serverA 1, .choose (chooseAt 100) 0, listAt 101 serverA (-1), listAt 102 serverA 1,
    .disconnect 103 serverA false]

/-- Every release is of an address that is out, and yet the count of A ends at
minus one, where the divisor of its quotient is zero. -/
theorem readd_counts_minus_one :
    Along (handedStep roundRobin) (fun h op => releases h op = true) (Handed.init 0) readdA ∧
      (handedReached roundRobin 0 readdA).sys.router.dst.map RouterDst.conns = [-1] ∧
      (handedReached roundRobin 0 readdA).sys.router.conns = -1 := by
  refine ⟨?_, ?_, ?_⟩
  all_goals decide +kernel

/-- A is removed and listed again after its connection was closed. -/
def closeThenReaddA : List SysOp :=
  [listAt 100 serverA 1, .choose (chooseAt 100) 0, .disconnect 100 serverA false,
    listAt 101 serverA (-1), listAt 102 serverA 1, .choose (chooseAt 103) 0]

theorem conns_nonneg_when_fresh_close_then_readd :
    NonNeg (handedReached roundRobin 0 closeThenReaddA).sys.router ∧
      ∀ op r, releases (handedReached roundRobin 0 closeThenReaddA) op = true →
        midRelease roundRobin (handedReached roundRobin 0 closeThenReaddA).sys op = some r → NonNeg r := by
  apply conns_nonneg_when_fresh roundRobin 0 closeThenReaddA
  · decide +kernel
  · exact exec_getD _ (by decide +kernel)

end Glb.Proofs.HandedOut
