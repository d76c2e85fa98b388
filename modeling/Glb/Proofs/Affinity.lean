import Glb.Proofs.MapShare

namespace Glb.Proofs.Affinity
open RouterFrame RouterRun TopDst MapShare Lib.Run

variable {cnf : Cnf} {env env' : ChooseEnv} {r r' : Router} {hint : UInt32}

/-- The pieces of the unit interval with the addresses they lead to. -/
def pieces (r : Router) : List (SockAddr × ℚ) := r.dst.map fun d => (d.dst.addr, d.map)

/-- Where a hint leads. -/
def owner (ps : List (SockAddr × ℚ)) (hint : UInt32) : Option SockAddr :=
  (ps.find? fun p => hintPoint hint < p.2).map Prod.fst

/-- A change request that asks for what the table says already. -/
def Ineffective (r : Router) (dst : Dst) : Prop :=
  match routerFindDst r dst with
  | none => dst.weight < 0
  | some i => 0 ≤ dst.weight ∧ (r.dst[i]?).any (fun d => d.dst.weight = dst.weight) = true

instance (r : Router) (dst : Dst) : Decidable (Ineffective r dst) := by
  unfold Ineffective
  split <;> infer_instance

/-- Choices, disconnects without a failure, and changes without effect. -/
def Unfailing (r : Router) : RouterOp → Prop
  | .choose _ _ => True
  | .disconnect _ _ failed => failed = false
  | .change _ dst _ => Ineffective r dst
  | .chooseAgain _ _ _ _ => False

instance (r : Router) : (op : RouterOp) → Decidable (Unfailing r op)
  | .choose _ _ => .isTrue trivial
  | .disconnect _ _ failed => inferInstanceAs (Decidable (failed = false))
  | .change _ dst _ => inferInstanceAs (Decidable (Ineffective r dst))
  | .chooseAgain _ _ _ _ => .isFalse id

theorem ineffective_edit (h : Ineffective r dst) : routerEdit cenv r dst ctx = none := by
  unfold Ineffective at h
  unfold routerEdit
  cases hf : routerFindDst r dst with
  | none =>
    rw [hf] at h
    exact if_pos h
  | some i =>
    simp only [hf] at h
    obtain ⟨hw, hsame⟩ := h
    cases hd : r.dst[i]? with
    | none => simp only [hd]
    | some d =>
      rw [hd, Option.any_some, decide_eq_true_eq] at hsame
      simp [hd, hsame, not_lt.mpr hw]

theorem alike_pieces (h : Alike r r') : pieces r' = pieces r := by
  have hp : ∀ q : Router, pieces q = (q.dst.map row).map fun x => (x.1.addr, x.2.1) := by
    intro q
    simp [pieces, row]
  rw [hp, hp, h.rows]

/-- As long as no rebuild of the map is pending, a choice is made on the map as it is. -/
theorem ready_fixed (h0 : r.mapFailed = 0) (now : Int) :
    (routerReady cnf (routerPrepare cnf now r)).dst = r.dst ∧
      (routerReady cnf (routerPrepare cnf now r)).mapFailed = 0 := by
  have hfailed : (routerPrepare cnf now r).mapFailed = 0 := by
    unfold routerPrepare routerExpireTop
    split <;> exact h0
  have hready : routerReady cnf (routerPrepare cnf now r) = routerPrepare cnf now r := by
    simp [routerReady, routerExpireMap, hfailed]
  rw [hready]
  exact ⟨(prepare_dst cnf now r).1, hfailed⟩

theorem find_owner (ds : List RouterDst) (x : ℚ) :
    (((ds.map RouterDst.map).findIdx? fun c => x < c).bind fun i => ds[i]?).map (fun d => d.dst.addr) =
      ((ds.map fun d => (d.dst.addr, d.map)).find? fun p => x < p.2).map Prod.fst := by
  induction ds with
  | nil => rfl
  | cons d ds ih =>
    by_cases hx : x < d.map
    · simp [List.findIdx?_cons, hx]
    · simp only [List.map_cons, List.findIdx?_cons, hx, decide_false, Bool.false_eq_true, ↓reduceIte,
        List.find?_cons, ← ih]
      cases (ds.map RouterDst.map).findIdx? fun c => x < c with
      | none => rfl
      | some i => simp

/-- The address chosen is a function of the pieces and the hint alone. -/
theorem choose_owner (hp : cnf.policy = .source) (he : cnf.extra = 0) (h0 : r.mapFailed = 0) :
    (glbRouterChooseDst cnf env r hint).2 = owner (pieces r) hint := by
  have hu : routerUsesMap cnf = true := by simp [routerUsesMap, hp, Policy.toNat]
  have hpieces : pieces (routerChooseDst cnf env r hint).1 = pieces r := by
    rw [alike_pieces (choose_alike he env r hint), pieces, (ready_fixed h0 env.now).1]
    rfl
  have hret : (routerChooseDst cnf env r hint).2 =
      (r.dst.map RouterDst.map).findIdx? fun c => hintPoint hint < c := by
    rw [choose_returns, routerPolicy, hp]
    simp only [hint_spec he hu]
    rw [(ready_fixed h0 env.now).1]
  have haddr : ∀ (q : Router) i, q.addrAt (some i) = (pieces q)[i]?.map Prod.fst := by
    intro q i
    simp [Router.addrAt, pieces, Function.comp_def]
  have hadd : ∀ (q : Router) ret, q.addrAt ret = (ret.bind fun i => (pieces q)[i]?).map Prod.fst := by
    intro q ret
    cases ret with
    | none => rfl
    | some i => exact haddr q i
  change (routerChooseDst cnf env r hint).1.addrAt (routerChooseDst cnf env r hint).2 = _
  rw [hadd, hpieces, ← hadd, hret, owner, pieces, ← find_owner]
  rfl

/-- The steps between the two choices change neither the pieces nor their owners. -/
theorem quiet_step (he : cnf.extra = 0) (ps : List (SockAddr × ℚ)) :
    ∀ r op r', (r.mapFailed = 0 ∧ pieces r = ps) → Unfailing r op → routerStep cnf r op = some r' →
      (r'.mapFailed = 0 ∧ pieces r' = ps) := by
  refine step_keeps (fun q => q.mapFailed = 0 ∧ pieces q = ps) Unfailing he ?_ ?_ ?_ ?_ ?_
  · rintro r r' h ⟨h0, hps⟩
    exact ⟨h.mapFailed.trans h0, (alike_pieces h).trans hps⟩
  · intro r cenv dst ctx r' _ hq hedit
    rw [ineffective_edit hq] at hedit
    cases hedit
  · rintro r env hint ⟨h0, hps⟩ _
    obtain ⟨hd, hm⟩ := ready_fixed h0 env.now
    exact ⟨hm, by rw [pieces, hd]; exact hps⟩
  · intro r now addr i _ hq
    cases hq
  · intro r now env hint addr hq
    cases hq

/-- Two choices with one hint give the same address when nothing but quiet steps is
between them, however often the clock and the counts change. -/
theorem source_affinity (hp : cnf.policy = .source) (he : cnf.extra = 0) (h0 : r.mapFailed = 0)
    (hq : Along (routerStep cnf) Unfailing (glbRouterChooseDst cnf env r hint).1 ops)
    (hrun : exec (routerStep cnf) (glbRouterChooseDst cnf env r hint).1 ops = some r') :
    (glbRouterChooseDst cnf env' r' hint).2 = (glbRouterChooseDst cnf env r hint).2 := by
  have hfirst : routerStep cnf r (.choose env hint) = some (glbRouterChooseDst cnf env r hint).1 := rfl
  have h1 := quiet_step he (pieces r) r (.choose env hint) _ ⟨h0, rfl⟩ trivial hfirst
  obtain ⟨hf, hps⟩ := exec_keeps (quiet_step he (pieces r)) h1 hq hrun
  rw [choose_owner hp he hf, choose_owner hp he h0, hps]

def otherClients : List RouterOp :=
  [.choose (chooseAt 90) 7, setAt 80 serverA 1, .disconnect 300 serverB false, .choose (chooseAt 500) 0xffffffff]

theorem source_affinity_other_clients :
    (glbRouterChooseDst sourceMap (chooseAt 501)
      ((exec (routerStep sourceMap) (glbRouterChooseDst sourceMap (chooseAt 100)
        (reached sourceMap [setAt 100 serverA 1, setAt 100 serverB 2]) 0x80000000).1 otherClients).getD
          Router.init) 0x80000000).2 =
      (glbRouterChooseDst sourceMap (chooseAt 100)
        (reached sourceMap [setAt 100 serverA 1, setAt 100 serverB 2]) 0x80000000).2 :=
  source_affinity rfl rfl (by decide +kernel) (by decide +kernel) (exec_getD _ (by decide +kernel))

end Glb.Proofs.Affinity
