import Glb.Router
import Mathlib.Tactic.Linarith

namespace Glb.Proofs.RouterFrame

variable {cnf : Cnf} {env : ChooseEnv} {r r' : Router} {d d' : RouterDst} {i : Nat}

/-- What the balancing decisions read of a destination. Counts, usage and the
time of the last check are left out. -/
def row (d : RouterDst) : Dst × ℚ × Int := (d.dst, d.map, d.failed)

/-- Routers that differ at most in counts, usage and the round-robin cursor. -/
structure Alike (r r' : Router) : Prop where
  ctx : r'.ctx = r.ctx
  topDst : r'.topDst = r.topDst
  topFailed : r'.topFailed = r.topFailed
  mapFailed : r'.mapFailed = r.mapFailed
  rows : r'.dst.map row = r.dst.map row

theorem Alike.refl (r : Router) : Alike r r := ⟨rfl, rfl, rfl, rfl, rfl⟩

theorem Alike.symm (h : Alike r r') : Alike r' r :=
  ⟨h.ctx.symm, h.topDst.symm, h.topFailed.symm, h.mapFailed.symm, h.rows.symm⟩

theorem Alike.trans (h : Alike r s) (h' : Alike s t) : Alike r t :=
  ⟨h'.ctx.trans h.ctx, h'.topDst.trans h.topDst, h'.topFailed.trans h.topFailed,
    h'.mapFailed.trans h.mapFailed, h'.rows.trans h.rows⟩

theorem Alike.get (h : Alike r r') (hd : r'.dst[i]? = some d') :
    ∃ d, r.dst[i]? = some d ∧ row d = row d' := by
  have hr : (r.dst.map row)[i]? = some (row d') := by
    rw [← h.rows, List.getElem?_map, hd]
    rfl
  simpa [List.getElem?_map] using hr

theorem Alike.mem (h : Alike r r') (hd : d' ∈ r'.dst) : ∃ d ∈ r.dst, row d = row d' := by
  have hr : row d' ∈ r.dst.map row := by
    rw [← h.rows]
    exact List.mem_map.mpr ⟨d', hd, rfl⟩
  simpa using hr

theorem row_eq_iff : row d = row d' ↔ d.dst = d'.dst ∧ d.map = d'.map ∧ d.failed = d'.failed := by
  simp [row]

theorem good_base_iff : routerDstIsGoodBase d now retry = true ↔ retry < now - d.failed := by
  simp [routerDstIsGoodBase]

theorem good_iff : routerDstIsGood d w now retry = true ↔
    w ≤ d.dst.weight ∧ routerDstIsGoodBase d now retry = true := by
  simp [routerDstIsGood]

theorem good_base_later (h : routerDstIsGoodBase d now retry = true) (hle : now ≤ now') :
    routerDstIsGoodBase d now' retry = true := by
  rw [good_base_iff] at h ⊢
  omega

/-- An entry of one list shows in another as far as a projection tells. -/
theorem mem_of_map_eq {l l' : List α} {f : α → β} {x : α} (h : l'.map f = l.map f) (hx : x ∈ l') :
    ∃ y ∈ l, f y = f x :=
  List.mem_map.mp (h ▸ List.mem_map_of_mem hx)

theorem map_modify (l : List α) (i : Nat) (f : α → α) (g : α → β) (hg : ∀ x, g (f x) = g x) :
    (l.modify i f).map g = l.map g := by
  apply List.ext_getElem?
  intro j
  rw [List.getElem?_map, List.getElem?_map, List.getElem?_modify]
  cases l[j]? with
  | none => rfl
  | some x => by_cases hj : i = j <;> simp [hj, hg]

/-- What holds of all of a list and of one entry in its new form holds of the list with
that form in place. -/
theorem forall_modify {P : α → Prop} {l : List α} {f : α → α} {i : Nat} (h : ∀ x ∈ l, P x)
    (hf : ∀ x, l[i]? = some x → P (f x)) : ∀ x ∈ l.modify i f, P x := by
  intro x hx
  obtain ⟨j, hj⟩ := List.mem_iff_getElem?.mp hx
  rw [List.getElem?_modify] at hj
  obtain ⟨y, hy, rfl⟩ := Option.map_eq_some_iff.mp hj
  split
  · rename_i hij
    exact hf y (hij ▸ hy)
  · exact h y (List.mem_of_getElem? hy)

section mark
variable (ds : List RouterDst) (i : Nat) (now : Int)

theorem mark_dsts : (ds.modify i (fun d => { d with failed := now })).map RouterDst.dst =
    ds.map RouterDst.dst := map_modify _ _ _ _ (fun _ => rfl)

theorem mark_maps : (ds.modify i (fun d => { d with failed := now })).map RouterDst.map =
    ds.map RouterDst.map := map_modify _ _ _ _ (fun _ => rfl)

theorem mark_mem (hd : ds[i]? = some d) :
    { d with failed := now } ∈ ds.modify i (fun d => { d with failed := now }) := by
  rw [List.mem_iff_getElem?]
  exact ⟨i, by simp [hd]⟩

end mark

theorem count_alike (r : Router) (i : Nat) (n : Int) : Alike r (r.count i n) :=
  ⟨rfl, rfl, rfl, rfl, map_modify _ _ _ _ (fun _ => rfl)⟩

/-- With `extra` off the check passes and touches nothing. -/
theorem check_at (he : cnf.extra = 0) (hd : r.dst[i]? = some d) :
    r.checkAt cnf env i = (r, true) := by
  obtain ⟨hi, hd'⟩ := List.getElem?_eq_some_iff.mp hd
  have hs : r.dst.set i d = r.dst := by rw [← hd', List.set_getElem_self]
  simp [Router.checkAt, hd, routerDstCheck, he, hs]

/-- The scan ends with the largest quotient of the good destinations, and with the
destination it belongs to unless it ends as it began. -/
theorem least_loop_spec (ctx : RouterCtx) (ds : List RouterDst) (i : Nat) (ret : Option Nat) (m : ℚ) :
    m ≤ (leastLoop ctx ds i (ret, m)).2 ∧
    (∀ d ∈ ds, routerDstIsGood d ctx.minWeight ctx.now ctx.retry = true →
      d.usage ≤ (leastLoop ctx ds i (ret, m)).2) ∧
    (leastLoop ctx ds i (ret, m) = (ret, m) ∨
      ∃ j d, ds[j]? = some d ∧ routerDstIsGood d ctx.minWeight ctx.now ctx.retry = true ∧
        leastLoop ctx ds i (ret, m) = (some (i + j), d.usage)) := by
  induction ds generalizing i ret m with
  | nil => exact ⟨le_refl m, by simp, Or.inl rfl⟩
  | cons d ds ih =>
    simp only [leastLoop]
    split
    · rename_i hc
      simp only [Bool.and_eq_true, decide_eq_true_eq] at hc
      obtain ⟨hle, hall, hres⟩ := ih (i + 1) (some i) d.usage
      refine ⟨by linarith [hc.1], ?_, Or.inr ?_⟩
      · intro e he hg
        rcases List.mem_cons.mp he with rfl | he
        · exact hle
        · exact hall e he hg
      · rcases hres with hres | ⟨j, e, he, hg, hres⟩
        · exact ⟨0, d, rfl, hc.2, hres⟩
        · exact ⟨j + 1, e, he, hg, by rw [hres, Nat.add_assoc, Nat.add_comm 1 j]⟩
    · rename_i hc
      obtain ⟨hle, hall, hres⟩ := ih (i + 1) ret m
      refine ⟨hle, ?_, ?_⟩
      · intro e he hg
        rcases List.mem_cons.mp he with rfl | he
        · have hu : ¬ m < e.usage := fun hlt => hc (by simp [hlt, hg])
          linarith
        · exact hall e he hg
      · rcases hres with hres | ⟨j, e, he, hg, hres⟩
        · exact Or.inl hres
        · exact Or.inr ⟨j + 1, e, he, hg, by rw [hres, Nat.add_assoc, Nat.add_comm 1 j]⟩

/-- What the scan of the whole table returns. -/
theorem least_loop_some (h : (leastLoop r.ctx r.dst 0 (none, 0)).1 = some i) :
    ∃ d, r.dst[i]? = some d ∧ routerDstIsGood d r.ctx.minWeight r.ctx.now r.ctx.retry = true ∧
      ∀ e ∈ r.dst, routerDstIsGood e r.ctx.minWeight r.ctx.now r.ctx.retry = true →
        e.usage ≤ d.usage := by
  obtain ⟨_, hall, hres⟩ := least_loop_spec r.ctx r.dst 0 none 0
  rcases hres with hres | ⟨j, d, hd, hg, hres⟩
  · simp [hres] at h
  · simp only [hres, Nat.zero_add, Option.some.injEq] at h hall
    exact ⟨d, h ▸ hd, hg, hall⟩

/-- With `extra` off the policy is the scan. -/
theorem least_eq (he : cnf.extra = 0) :
    routerChooseDstLeast cnf env r = (r, (leastLoop r.ctx r.dst 0 (none, 0)).1) := by
  unfold routerChooseDstLeast
  cases hl : (leastLoop r.ctx r.dst 0 (none, 0)).1 with
  | none => rfl
  | some i =>
    obtain ⟨d, hd, _⟩ := least_loop_some hl
    simp [check_at he hd]

theorem least_spec (he : cnf.extra = 0) :
    (routerChooseDstLeast cnf env r).1 = r ∧
    ∀ i, (routerChooseDstLeast cnf env r).2 = some i → ∃ d, r.dst[i]? = some d ∧
      routerDstIsGood d r.ctx.minWeight r.ctx.now r.ctx.retry = true := by
  rw [least_eq he]
  refine ⟨rfl, fun i hi => ?_⟩
  obtain ⟨d, hd, hg, _⟩ := least_loop_some hi
  exact ⟨d, hd, hg⟩

theorem round_loop_spec (he : cnf.extra = 0) (n : Nat) (r : Router) :
    Alike r (roundLoop cnf env n r).1 ∧
    ∀ i, (roundLoop cnf env n r).2 = some i → ∃ d, r.dst[i]? = some d ∧
      routerDstIsGood d r.ctx.minWeight r.ctx.now r.ctx.retry = true := by
  induction n generalizing r with
  | zero => exact ⟨Alike.refl r, by simp [roundLoop]⟩
  | succ n ih =>
    let r' := { r with rrbNext := (r.rrbNext + 1) % r.dst.length }
    have hr : Alike r r' := ⟨rfl, rfl, rfl, rfl, rfl⟩
    simp only [roundLoop]
    cases hd : r.dst[r.rrbNext]? with
    | none => exact ⟨hr, by simp⟩
    | some d =>
      simp only
      split
      · rename_i hg
        have hc : r'.checkAt cnf env r.rrbNext = (r', true) := check_at he hd
        simp only [r'] at hc
        simp only [hc, ↓reduceIte, Option.some.injEq]
        refine ⟨hr, ?_⟩
        rintro _ rfl
        exact ⟨d, hd, hg⟩
      · obtain ⟨ha, hs⟩ := ih r'
        exact ⟨hr.trans ha, hs⟩

/-- With `extra` off the map policies return the first destination whose
interval ends behind the point. -/
theorem hint_loop_spec (he : cnf.extra = 0) (m : ℚ) (n i : Nat) (r : Router)
    (hn : n + i = r.dst.length) :
    hintLoop cnf env m n i r =
      (r, ((r.dst.drop i).findIdx? (fun d => m < d.map)).map (· + i)) := by
  induction n generalizing i with
  | zero =>
    rw [List.drop_eq_nil_of_le (by omega)]
    rfl
  | succ n ih =>
    have hi : i < r.dst.length := by omega
    have hd : r.dst[i]? = some r.dst[i] := List.getElem?_eq_getElem hi
    rw [List.drop_eq_getElem_cons hi]
    simp only [hintLoop, hd, List.findIdx?_cons]
    by_cases hm : m < r.dst[i].map
    · simp [hm, check_at he hd]
    · simp only [hm, ↓reduceIte, decide_false, Bool.false_eq_true]
      rw [ih (i + 1) (by omega)]
      simp [Option.map_map, Function.comp_def, Nat.add_assoc, Nat.add_comm 1 i]

/-- The router that the policy's choice is made on: the map policies rebuild an
expired map first. -/
def routerReady (cnf : Cnf) (r : Router) : Router :=
  if routerUsesMap cnf && r.dst.length ≠ 0 then routerExpireMap cnf r else r

theorem hint_spec (he : cnf.extra = 0) (hm : routerUsesMap cnf = true) (r : Router) (hint : UInt32) :
    routerChooseDstHint cnf env r hint =
      (routerReady cnf r,
        ((routerReady cnf r).dst.map RouterDst.map).findIdx? (fun c => hintPoint hint < c)) := by
  unfold routerChooseDstHint routerReady
  by_cases hl : r.dst.length = 0
  · have hnil : r.dst = [] := List.length_eq_zero_iff.mp hl
    simp [hnil]
  · simp only [hl, ↓reduceIte, hm, ne_eq, not_false_eq_true, decide_true, Bool.and_self]
    rw [hint_loop_spec he _ _ 0 _ (by simp)]
    simp [List.findIdx?_map, Function.comp_def]

/-- Three of the policies have no use for the map. -/
theorem plain_policy (hp : cnf.policy = .least ∨ cnf.policy = .round ∨ cnf.policy = .single) :
    routerUsesMap cnf = false := by
  rcases hp with hp | hp | hp <;> simp [routerUsesMap, hp, Policy.toNat]

theorem ready_plain (hp : routerUsesMap cnf = false) (r : Router) : routerReady cnf r = r := by
  simp [routerReady, hp]

theorem policy_alike (he : cnf.extra = 0) (env : ChooseEnv) (r : Router) (hint : UInt32) :
    Alike (routerReady cnf r) (routerPolicy cnf env r hint).1 := by
  unfold routerPolicy
  cases hc : cnf.policy with
  | least =>
    rw [ready_plain (plain_policy (.inl hc)), (least_spec he).1]
    exact Alike.refl r
  | round =>
    rw [ready_plain (plain_policy (.inr (.inl hc)))]
    exact (round_loop_spec he _ r).1
  | single =>
    rw [ready_plain (plain_policy (.inr (.inr hc)))]
    exact Alike.refl r
  | random =>
    simp only [hint_spec he (by simp [routerUsesMap, hc, Policy.toNat])]
    exact Alike.refl _
  | source =>
    simp only [hint_spec he (by simp [routerUsesMap, hc, Policy.toNat])]
    exact Alike.refl _

/-- The context and top destination that every policy decides with. -/
def routerPrepare (cnf : Cnf) (now : Int) (r : Router) : Router :=
  routerExpireTop cnf (routerUpdateCtx cnf now r)

/-- The router with what the policy returned counted. -/
def tookOne (r : Router) : Option Nat → Router
  | some i => r.count i 1
  | none => r

/-- A choice is the policy's on the prepared router, and its count. -/
theorem choose_eq (hq : routerPolicy cnf env (routerPrepare cnf env.now r) hint = (q, ret)) :
    routerChooseDst cnf env r hint = (tookOne q ret, ret) := by
  unfold routerPrepare at hq
  unfold routerChooseDst
  simp only [hq]
  cases ret <;> rfl

/-- A choice leaves the table it was made on, up to the count of the chosen. -/
theorem choose_alike (he : cnf.extra = 0) (env : ChooseEnv) (r : Router) (hint : UInt32) :
    Alike (routerReady cnf (routerPrepare cnf env.now r)) (routerChooseDst cnf env r hint).1 := by
  have hp := policy_alike he env (routerPrepare cnf env.now r) hint
  cases hr : routerPolicy cnf env (routerPrepare cnf env.now r) hint with
  | mk q ret =>
    rw [hr] at hp
    rw [choose_eq hr]
    cases ret with
    | none => exact hp
    | some i => exact hp.trans (count_alike q i 1)

theorem choose_returns (r : Router) (hint : UInt32) :
    (routerChooseDst cnf env r hint).2 =
      (routerPolicy cnf env (routerPrepare cnf env.now r) hint).2 := by
  rw [choose_eq (Prod.mk.eta).symm]

section failure

/-- The router with the clock read and the mark of a failure set. -/
def stamped (cnf : Cnf) (now : Int) (r : Router) (i : Nat) : Router :=
  { r with
    ctx := { r.ctx with now := now, retry := routerRetryInterval cnf }
    dst := r.dst.modify i (fun d => { d with failed := now }) }

/-- The same with the top destination sought anew, if it is the one that failed. -/
def retopped (cnf : Cnf) (now : Int) (r : Router) (i : Nat) : Router :=
  if r.topDst = some i then
    { routerRedoTop { stamped cnf now r i with ctx := ⟨glbDblEpsilon, routerRetryInterval cnf, now⟩ } with
      topFailed := now }
  else stamped cnf now r i

/-- What `router_dst_failed` can do. -/
inductive Failure (cnf : Cnf) (now : Int) (r : Router) (i : Nat) : Router → Prop
  | unlisted (h : r.dst[i]? = none) : Failure cnf now r i r
  | wasBad {d : RouterDst} (hd : r.dst[i]? = some d)
    (hg : routerDstIsGood d r.ctx.minWeight now (routerRetryInterval cnf) = false) :
    Failure cnf now r i (stamped cnf now r i)
  | retops {d : RouterDst} (hd : r.dst[i]? = some d)
    (hg : routerDstIsGood d r.ctx.minWeight now (routerRetryInterval cnf) = true)
    (hu : routerUsesMap cnf = false) : Failure cnf now r i (retopped cnf now r i)
  | remaps {d : RouterDst} (hd : r.dst[i]? = some d)
    (hg : routerDstIsGood d r.ctx.minWeight now (routerRetryInterval cnf) = true)
    (hu : routerUsesMap cnf = true) :
    Failure cnf now r i { routerRedoMap (retopped cnf now r i) with mapFailed := now }

theorem failed_cases (cnf : Cnf) (now : Int) (r : Router) (i : Nat) :
    Failure cnf now r i (routerDstFailed cnf now r i) := by
  unfold routerDstFailed
  cases hd : r.dst[i]? with
  | none => exact .unlisted hd
  | some d =>
    simp only
    split
    · rename_i hg
      cases hu : routerUsesMap cnf with
      | false => exact .retops hd hg hu
      | true => exact .remaps hd hg hu
    · rename_i hg
      exact .wasBad hd (by simpa using hg)

end failure

end Glb.Proofs.RouterFrame
