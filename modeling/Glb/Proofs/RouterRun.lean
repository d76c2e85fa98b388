import Glb.Proofs.RouterFrame
import Glb.Lib.Run

namespace Glb.Proofs.RouterRun
open RouterFrame

variable {cnf : Cnf} {r r' : Router} {env : ChangeEnv} {i : Nat} {now : Int}

/-- Every reading of the clock is at least the one the router took before. -/
def ClockOk (r : Router) : RouterOp → Prop
  | .change env _ _ => r.ctx.now ≤ env.now
  | .choose env _ => r.ctx.now ≤ env.now
  | .disconnect now _ _ => r.ctx.now ≤ now
  | .chooseAgain now env _ _ => r.ctx.now ≤ now ∧ now ≤ env.now

instance (r : Router) : (op : RouterOp) → Decidable (ClockOk r op)
  | .change env _ _ => inferInstanceAs (Decidable (r.ctx.now ≤ env.now))
  | .choose env _ => inferInstanceAs (Decidable (r.ctx.now ≤ env.now))
  | .disconnect now _ _ => inferInstanceAs (Decidable (r.ctx.now ≤ now))
  | .chooseAgain now env _ _ => inferInstanceAs (Decidable (r.ctx.now ≤ now ∧ now ≤ env.now))

/-- The router with a requested change entered into the table, before the
decision context is recomputed. A request without effect gives nothing. -/
def routerEdit (env : ChangeEnv) (r : Router) (dst : Dst) (probeCtx : Option CtxId) :
    Option Router :=
  match routerFindDst r dst with
  | none =>
    if dst.weight < 0 then none
    else if env.realloc then some (routerAddDst r (routerNewDst dst probeCtx env.timeNow))
    else some r
  | some i =>
    match r.dst[i]? with
    | none => none
    | some d =>
      if dst.weight < 0 then some (routerRemoveDst r i d)
      else if d.dst.weight ≠ dst.weight then some (routerSetWeight r i dst.weight)
      else none

theorem change_dst_eq (cnf : Cnf) (env : ChangeEnv) (r : Router) (dst : Dst)
    (probeCtx : Option CtxId) :
    (glbRouterChangeDst cnf env r dst probeCtx).1 =
      match routerEdit env r dst probeCtx with
      | none => r
      | some r' => routerRedo cnf env.now r' := by
  unfold glbRouterChangeDst routerEdit
  cases hf : routerFindDst r dst with
  | none =>
    by_cases hw : dst.weight < 0
    · simp [hw]
    · by_cases hr : env.realloc = true <;> simp [hw, hr, routerApplyChange]
  | some i =>
    simp only [Option.isNone_some, Bool.false_and, Bool.false_eq_true, ↓reduceIte,
      routerApplyChange]
    cases r.dst[i]? with
    | none => rfl
    | some d =>
      by_cases hw : dst.weight < 0
      · simp [hw]
      · by_cases hd : d.dst.weight = dst.weight <;> simp [hw, hd]

/-- What an effective change enters into the table. -/
inductive Edit (env : ChangeEnv) (r : Router) (dst : Dst) (probeCtx : Option CtxId) : Router → Prop
  | added (hf : routerFindDst r dst = none) (hw : ¬ dst.weight < 0) (hm : env.realloc = true) :
    Edit env r dst probeCtx (routerAddDst r (routerNewDst dst probeCtx env.timeNow))
  | noMemory (hf : routerFindDst r dst = none) (hw : ¬ dst.weight < 0) (hm : env.realloc = false) :
    Edit env r dst probeCtx r
  | removed {i d} (hf : routerFindDst r dst = some i) (hd : r.dst[i]? = some d)
    (ha : d.dst.addr = dst.addr) (hw : dst.weight < 0) :
    Edit env r dst probeCtx (routerRemoveDst r i d)
  | weighed {i d} (hf : routerFindDst r dst = some i) (hd : r.dst[i]? = some d)
    (ha : d.dst.addr = dst.addr) (hw : ¬ dst.weight < 0) (hne : d.dst.weight ≠ dst.weight) :
    Edit env r dst probeCtx (routerSetWeight r i dst.weight)

theorem find_dst_some (h : routerFindDst r dst = some i) :
    ∃ d, r.dst[i]? = some d ∧ d.dst.addr = dst.addr := by
  obtain ⟨hi, hp, _⟩ := List.findIdx?_eq_some_iff_getElem.mp h
  exact ⟨r.dst[i], List.getElem?_eq_getElem hi, by simpa [glbDstIsEqual] using hp⟩

theorem find_dst_none (h : routerFindDst r dst = none) : ∀ d ∈ r.dst, d.dst.addr ≠ dst.addr := by
  intro d hd ha
  have hne := List.findIdx?_eq_none_iff.mp h d hd
  simp [glbDstIsEqual, ha, glbSockaddrIsEqual] at hne

theorem edit_cases (h : routerEdit env r dst ctx = some r') : Edit env r dst ctx r' := by
  unfold routerEdit at h
  cases hf : routerFindDst r dst with
  | none =>
    simp only [hf] at h
    split at h
    · cases h
    · rename_i hw
      split at h <;> rename_i hm <;> simp only [Option.some.injEq] at h <;> subst h
      · exact .added hf hw hm
      · exact .noMemory hf hw (by simpa using hm)
  | some i =>
    obtain ⟨d, hd, ha⟩ := find_dst_some hf
    simp only [hf, hd] at h
    split at h
    · rename_i hw
      simp only [Option.some.injEq] at h
      exact h ▸ .removed hf hd ha hw
    · rename_i hw
      split at h
      · rename_i hne
        simp only [Option.some.injEq] at h
        exact h ▸ .weighed hf hd ha hw hne
      · cases h

/-- A change is without effect when there is nothing to remove, or when the
weight is the one in the table. -/
theorem edit_idle (h : routerEdit env r dst ctx = none) :
    (routerFindDst r dst = none ∧ dst.weight < 0) ∨
      ∃ i d, routerFindDst r dst = some i ∧ r.dst[i]? = some d ∧ d.dst = dst ∧ ¬ dst.weight < 0 := by
  unfold routerEdit at h
  cases hf : routerFindDst r dst with
  | none =>
    simp only [hf] at h
    split at h
    · rename_i hw
      exact Or.inl ⟨rfl, hw⟩
    · split at h <;> cases h
  | some i =>
    obtain ⟨d, hd, ha⟩ := find_dst_some hf
    simp only [hf, hd] at h
    split at h
    · cases h
    · rename_i hw
      split at h
      · cases h
      · rename_i he
        simp only [ne_eq, not_not] at he
        refine Or.inr ⟨i, d, rfl, hd, ?_, hw⟩
        cases hdd : d.dst
        cases dst
        simp_all

/-- An edit touches neither the decision context nor the pending recomputations. -/
theorem edit_fields (h : routerEdit env r dst ctx = some r') :
    r'.ctx = r.ctx ∧ r'.topFailed = r.topFailed ∧ r'.mapFailed = r.mapFailed ∧
      (r'.topDst = none ∨ r'.topDst = r.topDst) := by
  cases edit_cases h with
  | added _ _ _ => exact ⟨rfl, rfl, rfl, Or.inl rfl⟩
  | noMemory _ _ _ => exact ⟨rfl, rfl, rfl, Or.inr rfl⟩
  | removed _ _ _ _ => exact ⟨rfl, rfl, rfl, Or.inl rfl⟩
  | weighed _ _ _ _ _ => exact ⟨rfl, rfl, rfl, Or.inr rfl⟩

/-- What `glb_router_disconnect` can do. -/
inductive Release (cnf : Cnf) (now : Int) (r : Router) (a : SockAddr) : Bool → Router → Prop
  | unlisted {failed : Bool} (h : ∀ d ∈ r.dst, d.dst.addr ≠ a) : Release cnf now r a failed r
  | counted {i : Nat} {d : RouterDst} (hd : r.dst[i]? = some d) (ha : d.dst.addr = a) :
    Release cnf now r a false (r.count i (-1))
  | failed {i : Nat} {d : RouterDst} (hd : r.dst[i]? = some d) (ha : d.dst.addr = a) :
    Release cnf now r a true (routerDstFailed cnf now (r.count i (-1)) i)

theorem disconnect_cases (cnf : Cnf) (now : Int) (r : Router) (a : SockAddr) (failed : Bool) :
    Release cnf now r a failed (glbRouterDisconnect cnf now r a failed) := by
  unfold glbRouterDisconnect routerDisconnect
  cases hf : r.dst.findIdx? (fun d => glbSockaddrIsEqual d.dst.addr a) with
  | none =>
    refine .unlisted fun d hd => ?_
    simpa [glbSockaddrIsEqual] using List.findIdx?_eq_none_iff.mp hf d hd
  | some i =>
    obtain ⟨hi, hp, _⟩ := List.findIdx?_eq_some_iff_getElem.mp hf
    have ha : r.dst[i].dst.addr = a := by simpa using hp
    cases failed with
    | false => exact .counted (List.getElem?_eq_getElem hi) ha
    | true => exact .failed (List.getElem?_eq_getElem hi) ha

/-- `glb_router_choose_dst_again` is a failure report followed by a choice. -/
theorem choose_again_eq (cnf : Cnf) (now : Int) (env : ChooseEnv) (r : Router) (hint : UInt32)
    (dst : SockAddr) :
    glbRouterChooseDstAgain cnf now env r hint dst =
      glbRouterChooseDst cnf env (glbRouterDisconnect cnf now r dst true) hint := rfl

theorem redo_map_ctx (r : Router) : (routerRedoMap r).ctx = r.ctx := by
  simp only [routerRedoMap]
  split <;> rfl

theorem retopped_now (cnf : Cnf) (now : Int) (r : Router) (i : Nat) :
    (retopped cnf now r i).ctx.now = now := by
  unfold retopped
  split <;> rfl

theorem failed_now (cnf : Cnf) (now : Int) (r : Router) (i : Nat) :
    (routerDstFailed cnf now r i).ctx.now = now ∨ routerDstFailed cnf now r i = r := by
  have hc := failed_cases cnf now r i
  generalize routerDstFailed cnf now r i = q at hc ⊢
  cases hc with
  | unlisted _ => exact Or.inr rfl
  | wasBad _ _ => exact Or.inl rfl
  | retops _ _ _ => exact Or.inl (retopped_now cnf now r i)
  | remaps _ _ _ =>
    have hctx := redo_map_ctx (retopped cnf now r i)
    exact Or.inl ((congrArg RouterCtx.now hctx).trans (retopped_now cnf now r i))

/-- The choice inside `glb_router_choose_dst_again` does not see its clock going
back either. -/
theorem clock_again (cnf : Cnf) (h : ClockOk r (.chooseAgain now cenv hint addr)) :
    ClockOk r (.disconnect now addr true) ∧
      ClockOk (glbRouterDisconnect cnf now r addr true) (.choose cenv hint) := by
  obtain ⟨h1, h2⟩ := h
  refine ⟨h1, ?_⟩
  unfold ClockOk glbRouterDisconnect routerDisconnect
  cases r.dst.findIdx? (fun d => glbSockaddrIsEqual d.dst.addr addr) with
  | none => exact le_trans h1 h2
  | some i =>
    rcases failed_now cnf now (r.count i (-1)) i with hn | hn
    · simp only [↓reduceIte, hn]
      exact h2
    · simp only [↓reduceIte, hn]
      exact le_trans h1 h2

/-- The rule for invariants of router runs. An invariant that does not look at
counts has to survive a recomputation after an edit, the preparation of a
choice, and a failure report. -/
theorem step_keeps (inv : Router → Prop) (ok : Router → RouterOp → Prop) (he : cnf.extra = 0)
    (alike : ∀ r r', Alike r r' → inv r → inv r')
    (redo : ∀ r env dst ctx r', inv r → ok r (.change env dst ctx) →
      routerEdit env r dst ctx = some r' → inv (routerRedo cnf env.now r'))
    (choose : ∀ r env hint, inv r → ok r (.choose env hint) →
      inv (routerReady cnf (routerPrepare cnf env.now r)))
    (failed : ∀ r now addr i, inv r → ok r (.disconnect now addr true) →
      r.dst.findIdx? (fun d => glbSockaddrIsEqual d.dst.addr addr) = some i →
      inv (routerDstFailed cnf now (r.count i (-1)) i))
    (again : ∀ r now env hint addr, ok r (.chooseAgain now env hint addr) →
      ok r (.disconnect now addr true) ∧
      ok (glbRouterDisconnect cnf now r addr true) (.choose env hint)) :
    ∀ r op r', inv r → ok r op → routerStep cnf r op = some r' → inv r' := by
  have chosen : ∀ r env hint, inv r → ok r (.choose env hint) →
      inv (glbRouterChooseDst cnf env r hint).1 := by
    intro r env hint hi hok
    exact alike _ _ (choose_alike he env r hint) (choose r env hint hi hok)
  have dropped : ∀ r now addr f, inv r → (f = true → ok r (.disconnect now addr true)) →
      inv (glbRouterDisconnect cnf now r addr f) := by
    intro r now addr f hi hok
    unfold glbRouterDisconnect routerDisconnect
    cases hf : r.dst.findIdx? (fun d => glbSockaddrIsEqual d.dst.addr addr) with
    | none => exact hi
    | some i =>
      cases f with
      | false => exact alike _ _ (count_alike r i (-1)) hi
      | true => exact failed r now addr i hi (hok rfl) hf
  intro r op r' hi hok hs
  cases op with
  | change env dst ctx =>
    simp only [routerStep, Option.some.injEq] at hs
    subst hs
    rw [change_dst_eq]
    cases hr : routerEdit env r dst ctx with
    | none => exact hi
    | some r' => exact redo r env dst ctx r' hi hok hr
  | choose env hint =>
    simp only [routerStep, Option.some.injEq] at hs
    exact hs ▸ chosen r env hint hi hok
  | disconnect now addr f =>
    simp only [routerStep, Option.some.injEq] at hs
    exact hs ▸ dropped r now addr f hi (fun hf => hf ▸ hok)
  | chooseAgain now env hint addr =>
    simp only [routerStep, Option.some.injEq] at hs
    obtain ⟨h1, h2⟩ := again r now env hint addr hok
    rw [← hs, choose_again_eq]
    exact chosen _ env hint (dropped r now addr true hi (fun _ => h1)) h2

/- What the concrete runs are made of: two servers, requests at a given time, a
choice with every probe passing, and the router such a run ends with. -/

def serverA : SockAddr := ⟨2, 3306, ⟨10, 0, 0, 1⟩, 0⟩
def serverB : SockAddr := ⟨2, 3306, ⟨10, 0, 0, 2⟩, 0⟩
def serverC : SockAddr := ⟨2, 3306, ⟨10, 0, 0, 3⟩, 0⟩

def setAt (now : Int) (addr : SockAddr) (weight : ℚ) : RouterOp :=
  .change ⟨now, now, true⟩ ⟨addr, weight⟩ none

def chooseAt (now : Int) : ChooseEnv := ⟨now, fun _ => ⟨now, true, now, now⟩, 0⟩

def reached (cnf : Cnf) (ops : List RouterOp) : Router :=
  (Lib.Run.exec (routerStep cnf) Router.init ops).getD Router.init

end Glb.Proofs.RouterRun
