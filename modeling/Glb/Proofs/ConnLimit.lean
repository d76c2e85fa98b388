import Glb.Proofs.RouterSum

namespace Glb.Proofs.ConnLimit
open Lib.Run Lib.SwapRemove RouterFrame RouterCore RouterRun RouterTable HeldSlot RouterSum

variable {cnf : Cnf} {s s' : RouterSys} {r r' : Router} {op : SysOp} {i : Nat} {d : RouterDst}

section total

theorem choose_total (h : routerChooseDst cnf env r hint = (r', ret)) : r'.conns ≤ r.conns + 1 := by
  rcases choose_picked h with ⟨_, hp⟩ | ⟨q, i, _, hp, rfl⟩
  · have := hp.same.conns
    omega
  · have := hp.same.conns
    simp only [Router.count]
    omega

/-- A release takes one connection off the total if the address is listed. -/
theorem disconnect_total (cnf : Cnf) (now : Int) (r : Router) (a : SockAddr) (failed : Bool) :
    (glbRouterDisconnect cnf now r a failed).conns = r.conns - if a ∈ listing r then 1 else 0 := by
  have hc := disconnect_cases cnf now r a failed
  generalize glbRouterDisconnect cnf now r a failed = q at hc ⊢
  have hlisted : ∀ {i : Nat} {d : RouterDst}, r.dst[i]? = some d → d.dst.addr = a → a ∈ listing r :=
    fun hd ha => List.mem_map.mpr ⟨_, List.mem_of_getElem? hd, ha⟩
  cases hc with
  | unlisted h =>
    have hn : a ∉ listing r := by
      intro ha
      obtain ⟨d, hd, hda⟩ := List.mem_map.mp ha
      exact h d hd hda
    simp only [hn, ↓reduceIte, Int.sub_zero]
  | counted hd ha =>
    rw [if_pos (hlisted hd ha)]
    rfl
  | @failed i _ hd ha =>
    rw [if_pos (hlisted hd ha)]
    exact (failed_core cnf now (r.count i (-1)) i).conns

theorem retry_total (h : routerConnectRetry cnf now env r hint i = (r', ret)) : r'.conns ≤ r.conns := by
  have hc := choose_total h
  have hf := (failed_core cnf now (r.count i (-1)) i).conns
  have hn : (r.count i (-1)).conns = r.conns + -1 := rfl
  omega

/-- The destination that a change removes. -/
def removedDst (r : Router) (dst : Dst) : Option RouterDst :=
  if dst.weight < 0 then (routerFindDst r dst).bind (fun i => r.dst[i]?) else none

theorem change_total (cnf : Cnf) (env : ChangeEnv) (r : Router) (dst : Dst) (ctx : Option CtxId)
    (hd : ∀ d, removedDst r dst = some d → 0 ≤ d.conns) :
    (glbRouterChangeDst cnf env r dst ctx).1.conns ≤ r.conns := by
  rw [change_dst_eq]
  cases he : routerEdit env r dst ctx with
  | none => exact Int.le_refl _
  | some q =>
    refine Int.le_trans (Int.le_of_eq (redo_same cnf env.now q).conns) ?_
    cases edit_cases he with
    | added _ _ _ => exact Int.le_refl _
    | noMemory _ _ _ => exact Int.le_refl _
    | @removed i d hf hi _ hw =>
      have hnn := hd d (by simp [removedDst, hw, hf, hi])
      simp only [routerRemoveDst]
      omega
    | weighed _ _ _ _ _ => exact Int.le_refl _

end total

/-- The destination that a step removes. -/
def removes (s : RouterSys) : SysOp → Option RouterDst
  | .change _ dst _ => if routerChangeWaits s.router dst then none else removedDst s.router dst
  | .wake _ =>
    match s.changer with
    | .waiting dst _ _ => if s.router.busyCount > 0 then none else removedDst s.router dst
    | .out => none
  | _ => none

/-- The address that a step reports as failed, to get another one. -/
def reportsFailed : SysOp → Option SockAddr
  | .chooseAgain _ _ _ a => some a
  | _ => none

/-- A step that cannot count a connection twice: a failed address is still listed,
and no destination is removed with a negative count. -/
def steady (s : RouterSys) (op : SysOp) : Bool :=
  (reportsFailed op).all (fun a => a ∈ listing s.router) && (removes s op).all (fun d => 0 ≤ d.conns)

/-- No step outside the listener's admission raises the total. -/
theorem step_total (hh : SlotsHeld s) (hok : steady s op = true) (ha : op.admits = false)
    (hstep : sysStep cnf s op = some s') : s'.router.conns ≤ s.router.conns := by
  simp only [steady, Bool.and_eq_true] at hok
  obtain ⟨hlisted, hremoved⟩ := hok
  cases turn_cases hstep with
  | waits _ _ => exact Int.le_refl _
  | @changes dst env ctx hc hw =>
    apply change_total
    intro d hd
    simpa [removes, hw, hd] using hremoved
  | sleeps _ => exact Int.le_refl _
  | @wakes dst ctx found env hc hb =>
    obtain ⟨hf, hn⟩ := hh.found _ _ _ hc
    rw [apply_change (r := { s.router with waitCount := s.router.waitCount - 1 }) hf hn]
    apply change_total cnf env { s.router with waitCount := s.router.waitCount - 1 }
    intro d hd
    have hd' : removedDst s.router dst = some d := hd
    simpa [removes, hc, hb, hd'] using hremoved
  | chooses _ => cases ha
  | @disconnects now a failed =>
    have hd := disconnect_total cnf now s.router a failed
    split at hd <;> simp only <;> omega
  | @again env now a hint r ret hr =>
    have hl : a ∈ listing s.router := by simpa [reportsFailed] using hlisted
    have hd := disconnect_total cnf now s.router a true
    rw [if_pos hl] at hd
    have hc := choose_total hr
    simp only
    omega
  | starts _ _ _ => cases ha
  | refused _ _ _ => cases ha
  | dials _ _ => exact Int.le_refl _
  | retries _ _ _ hr => exact retry_total hr
  | fails _ _ _ hr => exact (retry_total hr :)
  | connects _ _ _ => exact Int.le_refl _

/-- The limit between steps; a client that was admitted still fits. -/
structure UnderLimit (cnf : Cnf) (s : LimitSys) : Prop where
  held : SlotsHeld s.sys
  limit : s.sys.router.conns ≤ cnf.maxConn
  room : s.admitted.isSome = true → s.sys.router.conns < cnf.maxConn

/-- The condition on a step of the listener or of another thread. -/
def steadyStep (s : LimitSys) : LimitOp → Bool
  | .other op => steady s.sys op
  | _ => true

theorem within_init (hm : 0 ≤ cnf.maxConn) : UnderLimit cnf LimitSys.init :=
  ⟨held_init 1, hm, nofun⟩

/-- The choice for an admitted client adds one connection at most. -/
theorem choice_total (ha : op.admits = true) (hstep : sysStep cnf s op = some s') :
    s'.router.conns ≤ s.router.conns + 1 := by
  cases turn_cases hstep with
  | chooses hr => exact choose_total hr
  | starts _ _ hr => exact (choose_total hr :)
  | refused _ _ hr => exact (choose_total hr :)
  | waits _ _ => cases ha
  | changes _ _ => cases ha
  | sleeps _ => cases ha
  | wakes _ _ => cases ha
  | disconnects => cases ha
  | again _ => cases ha
  | dials _ _ => cases ha
  | retries _ _ _ _ => cases ha
  | fails _ _ _ _ => cases ha
  | connects _ _ _ => cases ha

theorem UnderLimit.admit {s : LimitSys} (h : UnderLimit cnf s) (hs : s.admitted = some hint)
    (ha : op.admits = true) (hstep : sysStep cnf s.sys op = some s') : UnderLimit cnf ⟨s', none⟩ := by
  have hc := choice_total ha hstep
  have hroom := h.room (by rw [hs]; rfl)
  exact ⟨step_held h.held hstep, by simp only; omega, nofun⟩

theorem step_within {s s' : LimitSys} {op : LimitOp} (h : UnderLimit cnf s) (hok : steadyStep s op = true)
    (hstep : limitStep cnf s op = some s') : UnderLimit cnf s' := by
  cases op with
  | test addr =>
    simp only [limitStep] at hstep
    split at hstep
    · cases hstep
    · split at hstep <;> simp only [Option.some.injEq] at hstep <;> subst hstep
      · exact h
      · rename_i hlt
        exact ⟨h.held, h.limit, fun _ => Int.not_le.mp hlt⟩
  | noSocket =>
    simp only [limitStep] at hstep
    split at hstep <;> simp only [Option.some.injEq, reduceCtorEq] at hstep
    exact hstep ▸ ⟨h.held, h.limit, nofun⟩
  | choose env =>
    cases ha : s.admitted with
    | none => simp [limitStep, ha] at hstep
    | some hint =>
      simp only [limitStep, ha] at hstep
      split at hstep
      · cases hstep
      · obtain ⟨t, ht, rfl⟩ := Option.map_eq_some_iff.mp hstep
        exact h.admit ha rfl ht
  | connect env =>
    cases ha : s.admitted with
    | none => simp [limitStep, ha] at hstep
    | some hint =>
      simp only [limitStep, ha] at hstep
      split at hstep
      · obtain ⟨t, ht, rfl⟩ := Option.map_eq_some_iff.mp hstep
        exact h.admit ha rfl ht
      · cases hstep
  | other op =>
    simp only [limitStep] at hstep
    split at hstep
    · cases hstep
    · rename_i ha
      obtain ⟨t, ht, rfl⟩ := Option.map_eq_some_iff.mp hstep
      have hle := step_total h.held hok (by simpa using ha) ht
      refine ⟨step_held h.held ht, Int.le_trans hle h.limit, ?_⟩
      intro hadm
      exact Int.lt_of_le_of_lt hle (h.room hadm)

/-- The limit holds as long as every failed address is still listed when another one
is chosen for it and no destination is removed with a negative count. -/
theorem conns_within_limit {s : LimitSys} (cnf : Cnf) (ops : List LimitOp) (hm : 0 ≤ cnf.maxConn)
    (hok : Along (limitStep cnf) (fun s op => steadyStep s op = true) LimitSys.init ops)
    (h : exec (limitStep cnf) LimitSys.init ops = some s) : s.sys.router.conns ≤ cnf.maxConn := by
  have hw : UnderLimit cnf s := by
    apply exec_keeps _ (within_init hm) hok h
    intro s op s' hi hc hstep
    exact step_within hi hc hstep
  exact hw.limit

def limitOne : Cnf := { roundRobin with maxConn := 1 }

def limitReached (ops : List LimitOp) : LimitSys :=
  (exec (limitStep limitOne) LimitSys.init ops).getD LimitSys.init

def client : SockAddr := ⟨2, 40000, ⟨10, 0, 0, 9⟩, 0⟩

/-- A, B and a client whose connection to A is pending. -/
def pendingA : List LimitOp :=
  [.other (listAt 100 serverA 1), .other (listAt 100 serverB 1), .test client, .choose (chooseAt 100)]

/-- A is removed, a second client takes the place that became free, and then the
first one's connection fails. -/
def removeThenFail : List LimitOp :=
  pendingA ++ [.other (listAt 101 serverA (-1)), .test client, .choose (chooseAt 101),
    .other (.chooseAgain 102 (chooseAt 102) 0 serverA)]

theorem removed_failure_exceeds_limit :
    exec (limitStep limitOne) LimitSys.init removeThenFail = some (limitReached removeThenFail) ∧
      0 ≤ limitOne.maxConn ∧ limitOne.maxConn < (limitReached removeThenFail).sys.router.conns := by
  refine ⟨?_, ?_, ?_⟩
  all_goals decide +kernel

/-- The first client's connection fails while A is still listed. -/
def failListed : List LimitOp :=
  pendingA ++ [.test client, .other (.chooseAgain 102 (chooseAt 102) 0 serverA)]

theorem conns_within_limit_fail_listed :
    (limitReached failListed).sys.router.conns ≤ limitOne.maxConn ∧
      (limitReached failListed).sys.router.conns = 1 := by
  refine ⟨conns_within_limit limitOne failListed ?_ ?_ ?_, ?_⟩
  all_goals decide +kernel

end Glb.Proofs.ConnLimit
