import Glb.Proofs.HeldSlot
import Mathlib.Algebra.BigOperators.Group.List.Basic

namespace Glb.Proofs.RouterSum
open Lib.Run Lib.SwapRemove RouterFrame RouterCore RouterRun HeldSlot RouterTable

variable {cnf : Cnf} {s s' : RouterSys} {r r' : Router} {op : SysOp} {i : Nat} {d : RouterDst}

/-- The total and the cached quotients say what the counts and weights say. -/
structure Accounted (r : Router) : Prop where
  total : r.conns = (r.dst.map RouterDst.conns).sum
  usage : ∀ d ∈ r.dst, d.usage = routerDstUsage d

theorem sum_modify (l : List RouterDst) (f : RouterDst → RouterDst) (hd : l[i]? = some d) :
    ((l.modify i f).map RouterDst.conns).sum =
      (l.map RouterDst.conns).sum + ((f d).conns - d.conns) := by
  induction l generalizing i with
  | nil => simp at hd
  | cons e l ih =>
    cases i with
    | zero =>
      simp only [List.getElem?_cons_zero, Option.some.injEq] at hd
      subst hd
      simp only [List.modify_zero_cons, List.map_cons, List.sum_cons]
      omega
    | succ i =>
      simp only [List.getElem?_cons_succ] at hd
      simp only [List.modify_succ_cons, List.map_cons, List.sum_cons, ih hd]
      omega

/-- A quotient computed anew at one slot, the others as they were. -/
theorem usage_modify (f : RouterDst → RouterDst) (hf : ∀ d, (f d).usage = routerDstUsage (f d))
    (h : ∀ d ∈ r.dst, d.usage = routerDstUsage d) :
    ∀ d ∈ r.dst.modify i f, d.usage = routerDstUsage d :=
  forall_modify h (fun d _ => hf d)

theorem Accounted.same (h : Accounted r) (hs : SameUpTo core r r') : Accounted r' := by
  refine ⟨?_, ?_⟩
  · rw [hs.conns, hs.map RouterDst.conns (fun _ => rfl)]
    exact h.total
  · intro d hd
    obtain ⟨i, hi⟩ := List.mem_iff_getElem?.mp hd
    obtain ⟨e, he, hed⟩ := hs.get hi
    have hu : e.usage = d.usage := (congrArg RouterDst.usage hed :)
    have hq : routerDstUsage e = routerDstUsage d := (congrArg routerDstUsage hed :)
    rw [← hu, ← hq]
    exact h.usage e (List.mem_of_getElem? he)

theorem Accounted.redo (h : Accounted r) (cnf : Cnf) (now : Int) : Accounted (routerRedo cnf now r) :=
  h.same (redo_same cnf now r).core

theorem Accounted.count (h : Accounted r) (hd : r.dst[i]? = some d) (n : Int) :
    Accounted (r.count i n) := by
  refine ⟨?_, usage_modify _ (fun _ => rfl) h.usage⟩
  simp only [Router.count, sum_modify _ _ hd, h.total]
  omega

theorem Accounted.choose (h : Accounted r) (hr : routerChooseDst cnf env r hint = (r', ret)) :
    Accounted r' := by
  rcases choose_picked hr with ⟨_, hp⟩ | ⟨q, i, _, hp, rfl⟩
  · exact h.same hp.same
  · have hi : i < q.dst.length := hp.same.length ▸ hp.listed i rfl
    exact (h.same hp.same).count (List.getElem?_eq_getElem hi) 1

theorem Accounted.undo (h : Accounted r) (hd : r.dst[i]? = some d) (cnf : Cnf) (now : Int) :
    Accounted (routerDstFailed cnf now (r.count i (-1)) i) :=
  (h.count hd (-1)).same (failed_core cnf now _ i)

theorem Accounted.disconnect (h : Accounted r) (cnf : Cnf) (now : Int) (a : SockAddr) (failed : Bool) :
    Accounted (glbRouterDisconnect cnf now r a failed) := by
  have hc := disconnect_cases cnf now r a failed
  generalize glbRouterDisconnect cnf now r a failed = q at hc ⊢
  cases hc with
  | unlisted _ => exact h
  | counted hd _ => exact h.count hd (-1)
  | failed hd _ => exact h.undo hd cnf now

section change
variable {env : ChangeEnv} {dst : Dst} {ctx : Option CtxId}

theorem Accounted.add (h : Accounted r) (dst : Dst) (ctx : Option CtxId) (timeNow : Int) :
    Accounted (routerAddDst r (routerNewDst dst ctx timeNow)) := by
  refine ⟨?_, ?_⟩
  · simp [routerAddDst, routerNewDst, h.total]
  · intro d hd
    rcases List.mem_append.mp hd with hd | hd
    · exact h.usage d hd
    · have he : d = routerNewDst dst ctx timeNow := List.mem_singleton.mp hd
      subst he
      rfl

theorem Accounted.remove (h : Accounted r) (hd : r.dst[i]? = some d) :
    Accounted (routerRemoveDst r i d) := by
  have hperm := swapRemove_perm r.dst i d hd
  refine ⟨?_, ?_⟩
  · have hsum := (hperm.map RouterDst.conns).sum_eq
    simp only [List.map_cons, List.sum_cons] at hsum
    simp only [routerRemoveDst]
    rw [h.total, hsum]
    omega
  · intro e he
    exact h.usage e (hperm.mem_iff.mpr (List.mem_cons_of_mem d he))

theorem Accounted.weigh (h : Accounted r) (hd : r.dst[i]? = some d) (w : ℚ) :
    Accounted (routerSetWeight r i w) := by
  refine ⟨?_, usage_modify _ (fun _ => rfl) h.usage⟩
  simp only [routerSetWeight, sum_modify _ _ hd, h.total]
  omega

theorem Accounted.change (h : Accounted r) (cnf : Cnf) (env : ChangeEnv) (dst : Dst)
    (ctx : Option CtxId) : Accounted (glbRouterChangeDst cnf env r dst ctx).1 := by
  rw [change_dst_eq]
  cases he : routerEdit env r dst ctx with
  | none => exact h
  | some q =>
    apply Accounted.redo
    cases edit_cases he with
    | added _ _ _ => exact h.add dst ctx env.timeNow
    | noMemory _ _ _ => exact h
    | removed _ hd _ _ => exact h.remove hd
    | weighed _ hd _ _ _ => exact h.weigh hd dst.weight

end change

theorem Accounted.counters (h : Accounted r) (b w : Int) :
    Accounted { r with busyCount := b, waitCount := w } := ⟨h.total, h.usage⟩

/-- The accounts survive every step of every thread. -/
theorem step_accounted (hh : SlotsHeld s) (h : Accounted s.router) (hstep : sysStep cnf s op = some s') :
    Accounted s'.router := by
  refine step_router Accounted ?_ ?_ ?_ ?_ ?_ hh h hstep
  · exact fun r b w hr => hr.counters b w
  · exact fun r env dst ctx hr => hr.change cnf env dst ctx
  · exact fun r env hint hr => hr.choose rfl
  · exact fun r i d hd hr => hr.count hd (-1)
  · exact fun r now i hr => hr.same (failed_core cnf now r i)

/-- In every run of the threads the router's total is the sum of its counts and the
cached quotients are current. -/
theorem conns_sum_usage_current (cnf : Cnf) (n : Nat) (ops : List SysOp)
    (h : exec (sysStep cnf) (RouterSys.init n) ops = some s) :
    s.router.conns = (s.router.dst.map RouterDst.conns).sum ∧
      ∀ d ∈ s.router.dst, d.conns + 1 ≠ 0 → d.usage = d.dst.weight / ((d.conns + 1 : Int) : ℚ) := by
  have keep : ∀ s op s', (SlotsHeld s ∧ Accounted s.router) → sysStep cnf s op = some s' →
      SlotsHeld s' ∧ Accounted s'.router := by
    intro s op s' hi hstep
    exact ⟨step_held hi.1 hstep, step_accounted hi.1 hi.2 hstep⟩
  obtain ⟨_, ha⟩ := exec_invariant keep ⟨held_init n, rfl, nofun⟩ h
  exact ⟨ha.total, fun d hd _ => ha.usage d hd⟩

/-- The attempt at B, the better one, fails and the next one goes to A. -/
def secondAttempt : List SysOp :=
  [listAt 100 serverA 1, listAt 100 serverB 2, .connect 0 (chooseAt 100) 0, .dial 0,
    .connected 0 111 100 (chooseAt 100), .choose (chooseAt 100) 0]

theorem conns_sum_usage_current_fail_over :
    ((sysReached roundRobin 1 secondAttempt).router.conns =
        ((sysReached roundRobin 1 secondAttempt).router.dst.map RouterDst.conns).sum ∧
      ∀ d ∈ (sysReached roundRobin 1 secondAttempt).router.dst, d.conns + 1 ≠ 0 →
        d.usage = d.dst.weight / ((d.conns + 1 : Int) : ℚ)) ∧
      (sysReached roundRobin 1 secondAttempt).router.dst.map (fun d => (d.conns, d.usage)) =
        [(2, 1 / 3), (0, 2)] := by
  refine ⟨conns_sum_usage_current roundRobin 1 secondAttempt ?_, ?_⟩
  all_goals decide +kernel

end Glb.Proofs.RouterSum
