import Glb.Proofs.RouterFrame

namespace Glb.Proofs.RouterCore
open RouterFrame

variable {cnf : Cnf} {env : ChooseEnv} {r r' s : Router} {i : Nat} {g : RouterDst → RouterDst}

/-- A destination without its piece of the map. -/
def stem (d : RouterDst) : RouterDst := { d with map := 0 }

/-- A destination without the map and the marks of checks and failures. -/
def core (d : RouterDst) : RouterDst := { d with map := 0, checked := 0, failed := 0 }

/-- Routers with the same counters whose destinations `g` does not tell apart. -/
structure SameUpTo (g : RouterDst → RouterDst) (r r' : Router) : Prop where
  dsts : r'.dst.map g = r.dst.map g
  conns : r'.conns = r.conns
  busy : r'.busyCount = r.busyCount
  wait : r'.waitCount = r.waitCount

theorem SameUpTo.refl (g : RouterDst → RouterDst) (r : Router) : SameUpTo g r r := ⟨rfl, rfl, rfl, rfl⟩

theorem SameUpTo.trans (h : SameUpTo g r s) (h' : SameUpTo g s r') : SameUpTo g r r' :=
  ⟨h'.dsts.trans h.dsts, h'.conns.trans h.conns, h'.busy.trans h.busy, h'.wait.trans h.wait⟩

theorem SameUpTo.symm (h : SameUpTo g r r') : SameUpTo g r' r :=
  ⟨h.dsts.symm, h.conns.symm, h.busy.symm, h.wait.symm⟩

theorem SameUpTo.core (h : SameUpTo stem r r') : SameUpTo core r r' := by
  refine ⟨?_, h.conns, h.busy, h.wait⟩
  have hc := congrArg (List.map RouterCore.core) h.dsts
  rw [List.map_map, List.map_map] at hc
  exact hc

theorem SameUpTo.length (h : SameUpTo g r r') : r'.dst.length = r.dst.length := by
  simpa using congrArg List.length h.dsts

/-- What `g` shows of a destination is still there. -/
theorem SameUpTo.get (h : SameUpTo g r r') (hd : r'.dst[i]? = some d) : ∃ e, r.dst[i]? = some e ∧ g e = g d := by
  have hi : (r.dst.map g)[i]? = some (g d) := by
    rw [← h.dsts, List.getElem?_map, hd]
    rfl
  simpa [List.getElem?_map] using hi

/-- A function of the destinations that sees no more than `g` does. -/
theorem SameUpTo.map (h : SameUpTo g r r') (f : RouterDst → β) (hf : ∀ d, f (g d) = f d) :
    r'.dst.map f = r.dst.map f := by
  have hm : ∀ l : List RouterDst, (l.map g).map f = l.map f := by
    intro l
    rw [List.map_map]
    exact List.map_congr_left (fun d _ => hf d)
  rw [← hm, h.dsts, hm]

/-- The round-robin cursor and the pointer to the top destination lead into the
table. -/
structure Placed (r : Router) : Prop where
  cursor : r.rrbNext = 0 ∨ r.rrbNext < r.dst.length
  top : ∀ i, r.topDst = some i → i < r.dst.length

theorem Placed.same (h : Placed r) (hl : r'.dst.length = r.dst.length)
    (hc : r'.rrbNext = r.rrbNext) (ht : r'.topDst = r.topDst) : Placed r' := by
  refine ⟨?_, ?_⟩
  · rw [hc, hl]
    exact h.cursor
  · intro i hi
    rw [hl]
    exact h.top i (ht ▸ hi)

section redo

theorem redo_top_loop_top (now retry : Int) (ds : List RouterDst) (k : Nat) (acc : Option Nat × ℚ)
    (h : (redoTopLoop now retry ds k acc).1 = some i) : acc.1 = some i ∨ i < k + ds.length := by
  induction ds generalizing k acc with
  | nil => exact Or.inl h
  | cons d ds ih =>
    obtain ⟨top, m⟩ := acc
    simp only [redoTopLoop] at h
    rw [List.length_cons]
    split at h
    · rcases ih (k + 1) _ h with he | hlt
      · simp only [Option.some.injEq] at he
        exact Or.inr (by omega)
      · exact Or.inr (by omega)
    · rcases ih (k + 1) _ h with he | hlt
      · exact Or.inl he
      · exact Or.inr (by omega)

theorem redo_top_placed (h : Placed r) : Placed (routerRedoTop r) := by
  refine ⟨h.cursor, ?_⟩
  intro i hi
  rcases redo_top_loop_top _ _ _ _ _ hi with ht | hlt
  · exact h.top i ht
  · have hz : i < 0 + r.dst.length := hlt
    rwa [Nat.zero_add] at hz

theorem normalize_stems (total m : ℚ) (ds : List RouterDst) :
    (redoMapNormalize total m ds).map stem = ds.map stem := by
  induction ds generalizing m with
  | nil => rfl
  | cons d ds ih =>
    simp only [redoMapNormalize, List.map_cons, ih]
    rfl

theorem redo_map_same (r : Router) : SameUpTo stem r (routerRedoMap r) := by
  have hw : (r.dst.map (redoMapWeigh r.ctx)).map stem = r.dst.map stem := by
    rw [List.map_map]
    rfl
  unfold routerRedoMap
  simp only
  split
  · exact ⟨hw, rfl, rfl, rfl⟩
  · exact ⟨(normalize_stems _ _ _).trans hw, rfl, rfl, rfl⟩

theorem redo_map_placed (h : Placed r) : Placed (routerRedoMap r) := by
  apply h.same (redo_map_same r).length
  · unfold routerRedoMap
    simp only
    split <;> rfl
  · unfold routerRedoMap
    simp only
    split <;> rfl

theorem update_ctx_placed (cnf : Cnf) (now : Int) (h : Placed r) : Placed (routerUpdateCtx cnf now r) :=
  ⟨h.cursor, h.top⟩

/-- The recomputation that ends a change of the table rewrites the map only. -/
theorem redo_same (cnf : Cnf) (now : Int) (r : Router) : SameUpTo stem r (routerRedo cnf now r) := by
  unfold routerRedo
  simp only
  have hctx : SameUpTo stem r (routerUpdateCtx cnf now r) := ⟨rfl, rfl, rfl, rfl⟩
  have htop : SameUpTo stem r (routerRedoTop (routerUpdateCtx cnf now r)) := ⟨rfl, rfl, rfl, rfl⟩
  cases cnf.top with
  | false =>
    cases routerUsesMap cnf with
    | false => exact hctx
    | true => exact hctx.trans (redo_map_same _)
  | true =>
    cases routerUsesMap cnf with
    | false => exact htop
    | true => exact htop.trans (redo_map_same _)

theorem redo_placed (cnf : Cnf) (now : Int) (h : Placed r) : Placed (routerRedo cnf now r) := by
  unfold routerRedo
  simp only
  have hctx := update_ctx_placed cnf now h
  cases cnf.top with
  | false =>
    cases routerUsesMap cnf with
    | false => exact hctx
    | true => exact redo_map_placed hctx
  | true =>
    cases routerUsesMap cnf with
    | false => exact redo_top_placed hctx
    | true => exact redo_map_placed (redo_top_placed hctx)

theorem prepare_same (cnf : Cnf) (now : Int) (r : Router) : SameUpTo stem r (routerPrepare cnf now r) := by
  unfold routerPrepare routerExpireTop
  split <;> exact ⟨rfl, rfl, rfl, rfl⟩

theorem prepare_placed (cnf : Cnf) (now : Int) (h : Placed r) : Placed (routerPrepare cnf now r) := by
  have hctx := update_ctx_placed cnf now h
  unfold routerPrepare routerExpireTop
  split
  · have htop := redo_top_placed hctx
    exact ⟨htop.cursor, htop.top⟩
  · exact hctx

theorem expire_map_same (cnf : Cnf) (r : Router) : SameUpTo stem r (routerExpireMap cnf r) := by
  unfold routerExpireMap
  split
  · have h := redo_map_same r
    exact ⟨h.dsts, h.conns, h.busy, h.wait⟩
  · exact SameUpTo.refl stem r

theorem expire_map_placed (cnf : Cnf) (h : Placed r) : Placed (routerExpireMap cnf r) := by
  unfold routerExpireMap
  split
  · have hm := redo_map_placed h
    exact ⟨hm.cursor, hm.top⟩
  · exact h

end redo

section choice

theorem check_core (d : RouterDst) (extra : Int) (c : Check) :
    core (routerDstCheck d extra c).1 = core d := by
  unfold routerDstCheck routerDstProbe
  split
  · rfl
  · split <;> rfl

theorem map_set (l : List α) (i : Nat) (x y : α) (f : α → β) (hx : l[i]? = some x) (hf : f y = f x) :
    (l.set i y).map f = l.map f := by
  rw [List.map_set, hf]
  obtain ⟨hi, rfl⟩ := List.getElem?_eq_some_iff.mp hx
  apply List.ext_getElem?
  intro j
  rw [List.getElem?_set]
  by_cases hj : i = j
  · subst hj
    simp [hi]
  · simp [hj]

/-- What a choice without its count does: it points into the table, if anywhere,
and rewrites marks and map only. -/
structure Picked (r r' : Router) (ret : Option Nat) : Prop where
  same : SameUpTo core r r'
  listed : ∀ i, ret = some i → i < r.dst.length
  placed : Placed r → Placed r'

theorem Picked.none (r : Router) : Picked r r none :=
  ⟨SameUpTo.refl core r, nofun, id⟩

theorem Picked.after (h : Picked s r' ret) (hs : SameUpTo core r s) (hp : Placed r → Placed s) :
    Picked r r' ret :=
  ⟨hs.trans h.same, fun i hi => hs.length ▸ h.listed i hi, fun hr => h.placed (hp hr)⟩

theorem check_same (cnf : Cnf) (env : ChooseEnv) (r : Router) (i : Nat) :
    SameUpTo core r (r.checkAt cnf env i).1 := by
  unfold Router.checkAt
  cases hd : r.dst[i]? with
  | none => exact SameUpTo.refl core r
  | some d => exact ⟨map_set _ _ _ _ _ hd (check_core d cnf.extra (env.check i)), rfl, rfl, rfl⟩

theorem check_placed (cnf : Cnf) (env : ChooseEnv) (i : Nat) (h : Placed r) :
    Placed (r.checkAt cnf env i).1 := by
  apply h.same (check_same cnf env r i).length
  · unfold Router.checkAt
    cases r.dst[i]? <;> rfl
  · unfold Router.checkAt
    cases r.dst[i]? <;> rfl

/-- The extra check passes only for a listed destination. -/
theorem check_listed (h : (r.checkAt cnf env i).2 = true) : i < r.dst.length := by
  unfold Router.checkAt at h
  cases hd : r.dst[i]? with
  | none => simp [hd] at h
  | some d => exact (List.getElem?_eq_some_iff.mp hd).1

theorem check_picked (cnf : Cnf) (env : ChooseEnv) (r : Router) (i : Nat) :
    Picked r (r.checkAt cnf env i).1 (if (r.checkAt cnf env i).2 then some i else none) := by
  refine ⟨check_same cnf env r i, ?_, check_placed cnf env i⟩
  intro j hj
  split at hj
  · rename_i hok
    simp only [Option.some.injEq] at hj
    exact hj ▸ check_listed hok
  · cases hj

theorem least_picked (cnf : Cnf) (env : ChooseEnv) (r : Router) :
    Picked r (routerChooseDstLeast cnf env r).1 (routerChooseDstLeast cnf env r).2 := by
  unfold routerChooseDstLeast
  split
  · exact Picked.none r
  · exact check_picked cnf env r _

/-- Moving the cursor on. -/
theorem cursor_placed (h : Placed r) (hl : 0 < r.dst.length) (i : Nat) :
    Placed { r with rrbNext := (i + 1) % r.dst.length } :=
  ⟨Or.inr (Nat.mod_lt _ hl), h.top⟩

theorem round_picked (cnf : Cnf) (env : ChooseEnv) (n : Nat) (r : Router) (hn : n ≤ r.dst.length) :
    Picked r (roundLoop cnf env n r).1 (roundLoop cnf env n r).2 := by
  induction n generalizing r with
  | zero => exact Picked.none r
  | succ n ih =>
    let r0 := { r with rrbNext := (r.rrbNext + 1) % r.dst.length }
    have h0 : SameUpTo core r r0 := ⟨rfl, rfl, rfl, rfl⟩
    have hp0 : Placed r → Placed r0 := fun h => cursor_placed h (Nat.zero_lt_of_lt hn) r.rrbNext
    have hn0 : n ≤ r0.dst.length := Nat.le_of_succ_le hn
    simp only [roundLoop]
    cases hd : r.dst[r.rrbNext]? with
    | none => exact (Picked.none r0).after h0 hp0
    | some d =>
      simp only
      split
      · have hk := check_same cnf env r0 r.rrbNext
        have hp := check_placed cnf env r.rrbNext (r := r0)
        split
        · refine ⟨h0.trans hk, ?_, fun h => hp (hp0 h)⟩
          intro i hi
          simp only [Option.some.injEq] at hi
          exact hi ▸ (List.getElem?_eq_some_iff.mp hd).1
        · exact (ih _ (Nat.le_trans hn0 (Nat.le_of_eq hk.length.symm))).after (h0.trans hk) (fun h => hp (hp0 h))
      · exact (ih _ hn0).after h0 hp0

theorem single_picked (r : Router) : Picked r r (routerChooseDstSingle r) := by
  refine ⟨SameUpTo.refl core r, ?_, id⟩
  intro i hi
  unfold routerChooseDstSingle at hi
  split at hi
  · rename_i hg
    unfold routerTopDstIsGood at hg
    split at hg
    · cases hg
    · rename_i d hd
      rw [Router.top, hi] at hd
      exact (List.getElem?_eq_some_iff.mp hd).1
  · cases hi

theorem hint_loop_picked (cnf : Cnf) (env : ChooseEnv) (m : ℚ) (n j : Nat) (r : Router) :
    Picked r (hintLoop cnf env m n j r).1 (hintLoop cnf env m n j r).2 := by
  induction n generalizing j r with
  | zero => exact Picked.none r
  | succ n ih =>
    simp only [hintLoop]
    cases hd : r.dst[j]? with
    | none => exact Picked.none r
    | some d =>
      simp only
      split
      · have hk := check_same cnf env r j
        have hp := check_placed cnf env j (r := r)
        split
        · refine ⟨hk, ?_, hp⟩
          intro i hi
          simp only [Option.some.injEq] at hi
          exact hi ▸ (List.getElem?_eq_some_iff.mp hd).1
        · exact (ih (j + 1) _).after hk hp
      · exact ih (j + 1) r

theorem hint_picked (cnf : Cnf) (env : ChooseEnv) (r : Router) (hint : UInt32) :
    Picked r (routerChooseDstHint cnf env r hint).1 (routerChooseDstHint cnf env r hint).2 := by
  unfold routerChooseDstHint
  split
  · exact Picked.none r
  · exact (hint_loop_picked cnf env _ _ 0 _).after (expire_map_same cnf r).core (expire_map_placed cnf)

theorem policy_picked (cnf : Cnf) (env : ChooseEnv) (r : Router) (hint : UInt32) :
    Picked r (routerPolicy cnf env r hint).1 (routerPolicy cnf env r hint).2 := by
  unfold routerPolicy
  cases cnf.policy with
  | least => exact least_picked cnf env r
  | round => exact round_picked cnf env r.dst.length r (Nat.le_refl _)
  | single => exact single_picked r
  | random => exact hint_picked cnf env r _
  | source => exact hint_picked cnf env r hint

/-- A choice that returns nothing counts nothing, any other counts one connection
at the destination it returns. -/
theorem choose_picked (h : routerChooseDst cnf env r hint = (r', ret)) :
    (ret = none ∧ Picked r r' none) ∨
      ∃ q i, ret = some i ∧ Picked r q (some i) ∧ r' = q.count i 1 := by
  have hpol := (policy_picked cnf env (routerPrepare cnf env.now r) hint).after
    (prepare_same cnf env.now r).core (prepare_placed cnf env.now)
  cases hp : routerPolicy cnf env (routerPrepare cnf env.now r) hint with
  | mk q ret' =>
    rw [choose_eq hp, Prod.mk.injEq] at h
    rw [hp] at hpol
    obtain ⟨rfl, rfl⟩ := h
    cases ret' with
    | none => exact Or.inl ⟨rfl, hpol⟩
    | some i => exact Or.inr ⟨q, i, rfl, hpol, rfl⟩

end choice

section failed

/-- The router with the mark of a failure set and nothing recomputed. -/
def marked (now : Int) (r : Router) (i : Nat) : Router :=
  { r with dst := r.dst.modify i (fun d => { d with failed := now }) }

theorem retopped_same (cnf : Cnf) (now : Int) (r : Router) (i : Nat) :
    SameUpTo stem (marked now r i) (retopped cnf now r i) := by
  unfold retopped
  split <;> exact ⟨rfl, rfl, rfl, rfl⟩

/-- A failure report sets one mark and rewrites the map. -/
theorem failed_same (cnf : Cnf) (now : Int) (r : Router) (i : Nat) :
    SameUpTo stem (marked now r i) (routerDstFailed cnf now r i) := by
  have hc := failed_cases cnf now r i
  generalize routerDstFailed cnf now r i = q at hc ⊢
  cases hc with
  | unlisted hd =>
    have hm : r.dst.modify i (fun d => { d with failed := now }) = r.dst :=
      List.modify_eq_self (List.getElem?_eq_none_iff.mp hd)
    have he : marked now r i = r := by
      unfold marked
      rw [hm]
    rw [he]
    exact SameUpTo.refl stem r
  | wasBad _ _ => exact ⟨rfl, rfl, rfl, rfl⟩
  | retops _ _ _ => exact retopped_same cnf now r i
  | remaps _ _ _ =>
    have h := (retopped_same cnf now r i).trans (redo_map_same _)
    exact ⟨h.dsts, h.conns, h.busy, h.wait⟩

theorem marked_core (now : Int) (r : Router) (i : Nat) : SameUpTo core r (marked now r i) :=
  ⟨map_modify _ _ _ _ (fun _ => rfl), rfl, rfl, rfl⟩

theorem failed_core (cnf : Cnf) (now : Int) (r : Router) (i : Nat) :
    SameUpTo core r (routerDstFailed cnf now r i) :=
  (marked_core now r i).trans (failed_same cnf now r i).core

theorem retopped_placed (cnf : Cnf) (now : Int) (i : Nat) (h : Placed r) :
    Placed (retopped cnf now r i) := by
  have hs : Placed (stamped cnf now r i) := h.same (marked_core now r i).length rfl rfl
  unfold retopped
  split
  · have ht := redo_top_placed (r := { stamped cnf now r i with
      ctx := ⟨glbDblEpsilon, routerRetryInterval cnf, now⟩ }) ⟨hs.cursor, hs.top⟩
    exact ⟨ht.cursor, ht.top⟩
  · exact hs

theorem failed_placed (cnf : Cnf) (now : Int) (i : Nat) (h : Placed r) :
    Placed (routerDstFailed cnf now r i) := by
  have hc := failed_cases cnf now r i
  generalize routerDstFailed cnf now r i = q at hc ⊢
  cases hc with
  | unlisted _ => exact h
  | wasBad _ _ => exact h.same (marked_core now r i).length rfl rfl
  | retops _ _ _ => exact retopped_placed cnf now i h
  | remaps _ _ _ =>
    have hp := redo_map_placed (retopped_placed cnf now i h)
    exact ⟨hp.cursor, hp.top⟩

end failed

theorem count_placed (i : Nat) (n : Int) (h : Placed r) : Placed (r.count i n) :=
  h.same (by simp [Router.count]) rfl rfl

end Glb.Proofs.RouterCore
