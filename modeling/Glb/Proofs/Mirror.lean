import Glb.Proofs.RouterTable
import Glb.Wdog

namespace Glb.Proofs.Mirror
open Function Lib.Keyed Lib.Run Lib.SwapRemove RouterFrame RouterCore RouterRun RouterTable

variable {cnf : Cnf} {members : String → List Dst} {w w' : Wdog} {ds ds' : List WdogDst} {i : Nat}
  {d : WdogDst}

def wdogAddr (d : WdogDst) : SockAddr := d.dst.addr

/-- What the router should list for a destination: its weight and its context, or
nothing. -/
def wanted (d : WdogDst) : Option (ℚ × Option CtxId) :=
  if 0 ≤ d.weight then some (d.weight, some d.ctx) else none

/-- The watchdog's list as the map that the router should be. -/
def watched (ds : List WdogDst) (a : SockAddr) : Option (ℚ × Option CtxId) := (assoc wdogAddr wanted ds a).join

/-- No destination twice in either list, and the router lists what the watchdog
means it to. -/
structure InStep (w : Wdog) : Prop where
  sound : TableSound w.router
  nodup : (w.dst.map wdogAddr).Nodup
  rows : fixed w.router = watched w.dst

section watched

/-- What the map depends on. -/
def face (d : WdogDst) : SockAddr × ℚ × CtxId := (d.dst.addr, d.weight, d.ctx)

/-- Two lists that differ in results, fail counts and own weights only. -/
def SameFaces (ds ds' : List WdogDst) : Prop := ds'.map face = ds.map face

theorem SameFaces.map (h : SameFaces ds ds') (f : WdogDst → β) (g : SockAddr × ℚ × CtxId → β)
    (hf : ∀ d, f d = g (face d)) : ds'.map f = ds.map f := by
  have hm : ∀ l : List WdogDst, l.map f = (l.map face).map g := by
    intro l
    rw [List.map_map]
    exact List.map_congr_left (fun d _ => hf d)
  rw [hm, hm, h]

theorem SameFaces.nodup (h : SameFaces ds ds') (hn : (ds.map wdogAddr).Nodup) :
    (ds'.map wdogAddr).Nodup := by
  rw [h.map wdogAddr Prod.fst (fun _ => rfl)]
  exact hn

theorem SameFaces.watched (h : SameFaces ds ds') (hn : (ds.map wdogAddr).Nodup) :
    watched ds' = watched ds := by
  have hm : ds'.map (fun d => (wdogAddr d, wanted d)) = ds.map (fun d => (wdogAddr d, wanted d)) :=
    h.map _ (fun x => (x.1, if 0 ≤ x.2.1 then some (x.2.1, some x.2.2) else none)) (fun _ => rfl)
  have ha : assoc wdogAddr wanted ds' = assoc wdogAddr wanted ds :=
    assoc_congr hn (hm ▸ List.Perm.refl _)
  funext a
  unfold Mirror.watched
  rw [ha]

theorem same_faces_modify (ds : List WdogDst) (i : Nat) (f : WdogDst → WdogDst)
    (hf : ∀ d, face (f d) = face d) : SameFaces ds (ds.modify i f) := map_modify _ _ _ _ hf

/-- A change of the keyed list at one key, seen through the map. -/
theorem watched_update (h : assoc wdogAddr wanted ds' = update (assoc wdogAddr wanted ds) a x) :
    watched ds' = update (watched ds) a x.join := by
  funext b
  unfold watched
  rw [h]
  by_cases hb : b = a
  · subst hb
    rw [update_self, update_self]
  · rw [update_of_ne hb, update_of_ne hb]

theorem watched_get (hn : (ds.map wdogAddr).Nodup) (hd : ds[i]? = some d) :
    watched ds (wdogAddr d) = wanted d := by
  unfold watched
  rw [assoc_mem hn (List.mem_of_getElem? hd)]
  rfl

end watched

section change
variable {env : StartEnv} {dst : Dst} {explicit : Bool}

/-- Steps that neither the router nor the map it mirrors sees. -/
structure Unseen (w w' : Wdog) : Prop where
  router : w'.router = w.router
  nodup : (w.dst.map wdogAddr).Nodup → (w'.dst.map wdogAddr).Nodup
  watched : (w.dst.map wdogAddr).Nodup → watched w'.dst = watched w.dst

theorem Unseen.refl (w : Wdog) : Unseen w w := ⟨rfl, id, fun _ => rfl⟩

theorem Unseen.trans {v : Wdog} (h : Unseen w v) (h' : Unseen v w') : Unseen w w' :=
  ⟨h'.router.trans h.router, fun hn => h'.nodup (h.nodup hn),
    fun hn => (h'.watched (h.nodup hn)).trans (h.watched hn)⟩

theorem Unseen.inStep (h : Unseen w w') (hm : InStep w) : InStep w' :=
  ⟨h.router ▸ hm.sound, h.nodup hm.nodup, by rw [h.router, h.watched hm.nodup, hm.rows]⟩

theorem unseen_of_faces (hr : w'.router = w.router) (h : SameFaces w.dst w'.dst) : Unseen w w' :=
  ⟨hr, h.nodup, h.watched⟩

theorem InStep.faces (h : InStep w) (hr : w'.router = w.router) (hf : SameFaces w.dst w'.dst) :
    InStep w' := (unseen_of_faces hr hf).inStep h

theorem refer_face (weight : ℚ) (explicit : Bool) (d : WdogDst) :
    face (wdogRefer weight explicit d) = face d := by
  unfold wdogRefer
  simp only
  split
  · rfl
  · split <;> rfl

/-- A new destination starts outside the router. -/
theorem add_unseen (hf : wdogFindDst w dst = none) (hd : d.dst = dst) (hw : d.weight < 0)
    (hr : w'.router = w.router) (hds : w'.dst = w.dst ++ [d]) : Unseen w w' := by
  have hnew : wdogAddr d ∉ w.dst.map wdogAddr := by
    intro hm
    obtain ⟨e, he, hea⟩ := List.mem_map.mp hm
    have hne := List.findIdx?_eq_none_iff.mp hf e he
    have heq : e.dst.addr = dst.addr := hea.trans (congrArg GlbDst.addr hd)
    simp [glbDstIsEqual, glbSockaddrIsEqual, heq] at hne
  have hadd : (w.dst.map wdogAddr).Nodup → ((w.dst ++ [d]).map wdogAddr).Nodup ∧
      assoc wdogAddr wanted (w.dst ++ [d]) = update (assoc wdogAddr wanted w.dst) (wdogAddr d) (some (wanted d)) :=
    fun hn => assoc_append hn hnew
  refine ⟨hr, ?_, ?_⟩
  · intro hn
    rw [hds]
    exact (hadd hn).1
  · intro hn
    rw [hds, watched_update (hadd hn).2]
    have hnone : watched w.dst (wdogAddr d) = none := by
      unfold watched
      rw [assoc_eq_none.mpr hnew]
      rfl
    have hs : wanted d = none := by simp [wanted, not_le.mpr hw]
    rw [hs, ← hnone]
    exact update_eq_self _ _

theorem wdog_change_unseen (env : StartEnv) (w : Wdog) (dst : Dst) (explicit : Bool) :
    Unseen w (wdogChangeDst env w dst explicit).1 := by
  unfold wdogChangeDst
  cases hf : wdogFindDst w dst with
  | none =>
    simp only
    split
    · exact Unseen.refl w
    · split
      · exact Unseen.refl w
      · split
        · exact add_unseen (d := ⟨.zero, dst, -1, w.nextCtx, 0, explicit⟩) hf rfl (by norm_num) rfl rfl
        · exact unseen_of_faces rfl rfl
  | some i =>
    simp only
    cases w.dst[i]? with
    | none => exact Unseen.refl w
    | some d =>
      simp only
      split
      · split
        · exact unseen_of_faces rfl rfl
        · exact Unseen.refl w
      · exact unseen_of_faces rfl (same_faces_modify _ _ _ (refer_face dst.weight explicit))

theorem membership_unseen (start : Nat → StartEnv) (dsts : List Dst) (i : Nat) (w : Wdog) :
    Unseen w (membershipLoop start dsts i w) := by
  induction dsts generalizing i w with
  | nil => exact Unseen.refl w
  | cons dst dsts ih => exact (wdog_change_unseen (start i) w dst false).trans (ih (i + 1) _)

end change

section collect
variable {env : CollectEnv} {c c' : Collect} {ctxs ctxs' : CtxId → Option BackendCtx}

/-- Whether the thread of a context has exited. -/
def hasJoined (ctxs : CtxId → Option BackendCtx) (id : CtxId) : Bool := (ctxs id).any BackendCtx.join

/-- What the first loop does to a destination and its context. -/
structure Copied (d : WdogDst) (k : BackendCtx) (d' : WdogDst) (k' : BackendCtx) : Prop where
  dst : d'.dst = d.dst
  ctx : d'.ctx = d.ctx
  weight : d'.weight = d.weight
  explicit : d'.explicit = d.explicit
  join : k'.join = k.join
  quit : k'.quit = k.quit ∨ (d.explicit = false ∧ k'.quit = true)
  others : d'.result.others = none ∨ d'.result.others = d.result.others ∨ d'.result.others = k.result.others

theorem copy_result_copied (realloc : Bool) (lf : Int) (d : WdogDst) (ctx : BackendCtx) (maxLat : ℚ) :
    Copied d ctx (wdogCopyResult realloc lf d ctx maxLat).1 (wdogCopyResult realloc lf d ctx maxLat).2.1 := by
  unfold wdogCopyResult
  by_cases hready : ctx.result.ready = true
  · by_cases hnf : ctx.result.state = .notfound
    · simp only [hready, hnf, Bool.not_true, Bool.false_eq_true, ↓reduceIte, reduceCtorEq, decide_false,
        Bool.and_false]
      refine ⟨rfl, rfl, rfl, rfl, ?_, ?_, Or.inr (Or.inl rfl)⟩
      · split <;> rfl
      · split
        · rename_i hc
          exact Or.inr ⟨by simpa using (Bool.and_eq_true_iff.mp hc).1, rfl⟩
        · exact Or.inl rfl
    · simp only [hready, hnf, Bool.not_true, Bool.false_eq_true, ↓reduceIte]
      have ho : (wdogCopyOthers realloc d.result ctx.result).1 = none ∨
          (wdogCopyOthers realloc d.result ctx.result).1 = d.result.others ∨
          (wdogCopyOthers realloc d.result ctx.result).1 = ctx.result.others := by
        unfold wdogCopyOthers
        split
        · split
          · exact Or.inr (Or.inr rfl)
          · exact Or.inl rfl
        · split
          · exact Or.inr (Or.inr rfl)
          · exact Or.inr (Or.inl rfl)
      split <;> exact ⟨rfl, rfl, rfl, rfl, rfl, Or.inl rfl, ho⟩
  · simp only [hready, Bool.not_false, ↓reduceIte, Bool.false_and, Bool.false_eq_true]
    exact ⟨rfl, rfl, rfl, rfl, rfl, Or.inl rfl, Or.inr (Or.inl rfl)⟩

/-- The first loop takes the destinations one by one, each with its context. -/
theorem copy_cons (h : copyLoop env lf (d :: ds) i ctxs maxLat = some (ds', ctxs', m)) :
    ∃ ctx es, ctxs d.ctx = some ctx ∧ ds' = (wdogCopyResult (env.realloc i) lf d ctx maxLat).1 :: es ∧
      copyLoop env lf ds (i + 1)
        (update ctxs d.ctx (some (wdogCopyResult (env.realloc i) lf d ctx maxLat).2.1))
        (wdogCopyResult (env.realloc i) lf d ctx maxLat).2.2 = some (es, ctxs', m) := by
  simp only [copyLoop] at h
  cases hc : ctxs d.ctx with
  | none => simp [hc] at h
  | some ctx =>
    simp only [hc] at h
    obtain ⟨⟨es, cs, l⟩, hrest, heq⟩ := Option.map_eq_some_iff.mp h
    simp only [Prod.mk.injEq] at heq
    obtain ⟨rfl, rfl, rfl⟩ := heq
    exact ⟨ctx, es, rfl, rfl, hrest⟩

/-- The first loop reads results only. -/
theorem copy_loop_faces (env : CollectEnv) (lf : Int) (ds : List WdogDst) (i : Nat) (maxLat : ℚ)
    (h : copyLoop env lf ds i ctxs maxLat = some (ds', ctxs', m)) :
    SameFaces ds ds' ∧ ∀ id, hasJoined ctxs' id = hasJoined ctxs id := by
  induction ds generalizing i ctxs maxLat ds' with
  | nil =>
    simp only [copyLoop, Option.some.injEq, Prod.mk.injEq] at h
    obtain ⟨rfl, rfl, _⟩ := h
    exact ⟨rfl, fun _ => rfl⟩
  | cons d ds ih =>
    obtain ⟨ctx, es, hc, rfl, hrest⟩ := copy_cons h
    have hcopied := copy_result_copied (env.realloc i) lf d ctx maxLat
    have hface : face (wdogCopyResult (env.realloc i) lf d ctx maxLat).1 = face d := by
      simp only [face, hcopied.dst, hcopied.weight, hcopied.ctx]
    obtain ⟨hfaces, hjoins⟩ := ih _ _ hrest
    refine ⟨?_, ?_⟩
    · unfold SameFaces at hfaces ⊢
      rw [List.map_cons, List.map_cons, hface, hfaces]
    · intro id
      rw [hjoins]
      unfold hasJoined
      by_cases hid : id = d.ctx
      · subst hid
        rw [update_self, hc]
        exact hcopied.join
      · rw [update_of_ne hid]

theorem hold_face (d : WdogDst) : face (wdogHold d) = face d := by
  unfold wdogHold
  split
  · rfl
  · simp only
    split <;> split <;> rfl

/-- What the router lists for an address, after a change there. -/
theorem fixed_update {r r' : Router} (h : table r' = update (table r) a e) :
    fixed r' = update (fixed r) a (e.map Entry.fixed) := by
  funext b
  unfold fixed
  rw [h]
  by_cases hb : b = a
  · subst hb
    rw [update_self, update_self]
  · rw [update_of_ne hb, update_of_ne hb]

/-- What the router is told for a new weight. -/
def told (weight : ℚ) (id : CtxId) : Option (ℚ × Option CtxId) :=
  if 0 ≤ weight then some (weight, some id) else none

/-- A router call for a destination whose row is in step. -/
theorem change_fixed {r : Router} {env : ChangeEnv} {k : CtxId} (cnf : Cnf) (dst : Dst) (hs : TableSound r)
    (hm : env.realloc = true) (hrow : fixed r dst.addr = told weight k) :
    ((glbRouterChangeDst cnf env r dst (some k)).2 < 0 →
      (glbRouterChangeDst cnf env r dst (some k)).1 = r) ∧
    (¬ (glbRouterChangeDst cnf env r dst (some k)).2 < 0 →
      fixed (glbRouterChangeDst cnf env r dst (some k)).1 =
        update (fixed r) dst.addr (told dst.weight k)) := by
  have hcode : (glbRouterChangeDst cnf env r dst (some k)).2 < 0 ↔
      table r dst.addr = none ∧ dst.weight < 0 := (change_code cnf hm).1
  have htable : table (glbRouterChangeDst cnf env r dst (some k)).1 =
      changeEntry (table r) dst (some k) := change_table cnf hs.unique hm
  refine ⟨?_, ?_⟩
  · intro hneg
    obtain ⟨hnone, hw⟩ := hcode.mp hneg
    exact (change_code cnf hm).2 hnone hw
  · intro hpos
    rw [hcode] at hpos
    unfold changeEntry at htable
    cases ht : table r dst.addr with
    | none =>
      have hw : ¬ dst.weight < 0 := fun hw => hpos ⟨ht, hw⟩
      simp only [ht, hw, ↓reduceIte] at htable
      rw [fixed_update htable]
      simp [told, not_lt.mp hw, Entry.fixed]
    | some e =>
      have hctx : e.probeCtx = some k := by
        rw [fixed, ht] at hrow
        unfold told at hrow
        split at hrow
        · simp only [Option.map_some, Entry.fixed, Option.some.injEq, Prod.mk.injEq] at hrow
          exact hrow.2
        · cases hrow
      simp only [ht] at htable
      by_cases hw : dst.weight < 0
      · simp only [hw, ↓reduceIte] at htable
        rw [fixed_update htable]
        simp [told, not_le.mpr hw]
      · simp only [hw, ↓reduceIte] at htable
        rw [fixed_update htable]
        simp [told, not_lt.mp hw, Entry.fixed, hctx]

theorem weigh_watched (hn : (ds.map wdogAddr).Nodup) (hd : ds[i]? = some d) (new : ℚ) :
    ((ds.modify i (fun d => { d with weight := new })).map wdogAddr).Nodup ∧
      assoc wdogAddr wanted (ds.modify i (fun d => { d with weight := new })) =
        update (assoc wdogAddr wanted ds) (wdogAddr d) (some (wanted { d with weight := new })) :=
  assoc_modify (fun d : WdogDst => { d with weight := new }) (fun _ => rfl) hn hd

/-- Bringing a new weight to the router keeps both in step. -/
theorem update_in_step (env : ChangeEnv) (h : InStep w) (hm : env.realloc = true) (hd : w.dst[i]? = some d)
    (new : ℚ) : InStep (wdogUpdateRouter cnf env w i d new) := by
  unfold wdogUpdateRouter
  split
  · have hrow : fixed w.router d.dst.addr = told d.weight d.ctx :=
      (congrFun h.rows _).trans (watched_get h.nodup hd)
    obtain ⟨hneg, hpos⟩ := change_fixed cnf ⟨d.dst.addr, new⟩ h.sound hm hrow
    have hsound := change_sound cnf env ⟨d.dst.addr, new⟩ (some d.ctx) h.sound
    simp only
    split
    · rename_i hret
      obtain ⟨hn, ha⟩ := weigh_watched h.nodup hd new
      refine ⟨hsound, hn, ?_⟩
      rw [hpos (by omega), watched_update ha, h.rows]
      rfl
    · rename_i hret
      have hr := hneg (by omega)
      refine ⟨hsound, h.nodup, ?_⟩
      simp only [hr]
      exact h.rows
  · exact h

/-- A destination that the router does not have leaves without a trace. -/
theorem reap_in_step (h : InStep w) (hd : w.dst[i]? = some d) (hw : d.weight < 0)
    (hr : w'.router = w.router) (hds : w'.dst = swapRemove w.dst i) : InStep w' := by
  have hcut : ((swapRemove w.dst i).map wdogAddr).Nodup ∧
      assoc wdogAddr wanted (swapRemove w.dst i) = update (assoc wdogAddr wanted w.dst) (wdogAddr d) none :=
    assoc_swapRemove h.nodup hd
  refine ⟨hr ▸ h.sound, hds ▸ hcut.1, ?_⟩
  have hnone : watched w.dst (wdogAddr d) = none := by
    rw [watched_get h.nodup hd]
    simp [wanted, not_le.mpr hw]
  rw [hr, hds, watched_update hcut.2, h.rows, Option.join_none, ← hnone]
  exact (update_eq_self _ _).symm

/-- What the second loop does at an index, it does not do below it. -/
theorem update_below (env : ChangeEnv) (w : Wdog) (d : WdogDst) (new : ℚ) (hj : j < n) :
    (wdogUpdateRouter cnf env w n d new).dst[j]? = w.dst[j]? := by
  have hne : n ≠ j := by omega
  unfold wdogUpdateRouter
  split
  · simp only
    split
    · simp [hne]
    · rfl
  · rfl

/-- Bringing a weight to the router changes only the note of it. -/
theorem update_router_frame (cnf : Cnf) (env : ChangeEnv) (w : Wdog) (n : Nat) (d : WdogDst) (new : ℚ) (f : WdogDst → β)
    (hf : ∀ (d : WdogDst) (x : ℚ), f { d with weight := x } = f d) :
    (wdogUpdateRouter cnf env w n d new).ctxs = w.ctxs ∧
      (wdogUpdateRouter cnf env w n d new).nextCtx = w.nextCtx ∧
      (wdogUpdateRouter cnf env w n d new).dst.map f = w.dst.map f := by
  unfold wdogUpdateRouter
  split
  · simp only
    split
    · exact ⟨rfl, rfl, map_modify _ _ _ _ (fun d => hf d new)⟩
    · exact ⟨rfl, rfl, rfl⟩
  · exact ⟨rfl, rfl, rfl⟩

/-- What the second loop does at one index. -/
inductive LoopVisit (cnf : Cnf) (env : CollectEnv) (maxLat : ℚ) (c : Collect) (n : Nat) (d : WdogDst) : Collect → Prop
  | reaped (hj : (hasJoined c.wdog.ctxs d.ctx || env.exits d.ctx) = true) :
    LoopVisit cnf env maxLat c n d { c with
      wdog := { c.wdog with ctxs := update c.wdog.ctxs d.ctx none, dst := swapRemove c.wdog.dst n } }
  | kept (results : Nat) (membSource : Option Nat) (hj : (hasJoined c.wdog.ctxs d.ctx || env.exits d.ctx) = false)
    (hs : membSource = c.membSource ∨ cnf.discover = true) :
    LoopVisit cnf env maxLat c n d ⟨wdogUpdateRouter cnf (env.change n)
      { c.wdog with dst := c.wdog.dst.modify n wdogHold } n (wdogHold d) (wdogNewWeight cnf maxLat d),
      results, membSource⟩

theorem visit_cases (h : collectOne cnf env maxLat c n = some c') :
    ∃ d, c.wdog.dst[n]? = some d ∧ LoopVisit cnf env maxLat c n d c' := by
  unfold collectOne at h
  simp only at h
  cases hd : c.wdog.dst[n]? with
  | none => simp [hd] at h
  | some d =>
    refine ⟨d, rfl, ?_⟩
    simp only [hd] at h
    cases hctx : c.wdog.ctxs d.ctx with
    | none => simp [hctx] at h
    | some ctx =>
      simp only [hctx] at h
      have hjoined : hasJoined c.wdog.ctxs d.ctx = ctx.join := by simp [hasJoined, hctx]
      split at h
      · rename_i hj
        obtain rfl := Option.some.inj h
        exact .reaped (hjoined.symm ▸ hj)
      · rename_i hj
        obtain rfl := Option.some.inj h
        refine .kept _ _ (hjoined.symm ▸ by simpa using hj) ?_
        split
        · rename_i ht
          simp only [wdogTellsMembers, Bool.and_eq_true] at ht
          exact Or.inr ht.2.1.1.1
        · exact Or.inl rfl

/-- The body of the second loop at index `n`. -/
theorem collect_one_in_step (hm : (env.change n).realloc = true) (h : InStep c.wdog)
    (hreap : ∀ d, c.wdog.dst[n]? = some d → (hasJoined c.wdog.ctxs d.ctx || env.exits d.ctx) = true →
      d.weight < 0)
    (hone : collectOne cnf env maxLat c n = some c') :
    InStep c'.wdog ∧ (∀ j < n, c'.wdog.dst[j]? = c.wdog.dst[j]?) ∧
      ∀ id, hasJoined c'.wdog.ctxs id = true → hasJoined c.wdog.ctxs id = true := by
  obtain ⟨d, hd, hv⟩ := visit_cases hone
  cases hv with
  | reaped hj =>
    refine ⟨reap_in_step h hd (hreap d hd hj) rfl rfl, ?_, ?_⟩
    · intro j hj
      obtain ⟨hn, _⟩ := List.getElem?_eq_some_iff.mp hd
      rw [swapRemove_getElem? _ n j hn (by omega), if_neg (by omega)]
    · intro id hid
      by_cases he : id = d.ctx
      · subst he
        simp [hasJoined] at hid
      · simpa [hasJoined, update_of_ne he] using hid
  | kept results membSource hj _ =>
    have hhold : InStep { c.wdog with dst := c.wdog.dst.modify n wdogHold } :=
      h.faces rfl (same_faces_modify _ _ _ hold_face)
    have hget : (c.wdog.dst.modify n wdogHold)[n]? = some (wdogHold d) := by simp [hd]
    refine ⟨update_in_step (env.change n) hhold hm hget _, ?_, ?_⟩
    · intro j hj
      have hne : n ≠ j := by omega
      rw [update_below _ _ _ _ hj]
      simp [hne]
    · intro id hid
      rwa [(update_router_frame cnf _ _ _ _ _ wdogAddr (fun _ _ => rfl)).1] at hid

/-- The second loop, when it reaps only what the router does not have. -/
theorem collect_loop_in_step (n : Nat) (hm : ∀ i < n, (env.change i).realloc = true) (h : InStep c.wdog)
    (hreap : ∀ i < n, ∀ d, c.wdog.dst[i]? = some d →
      (hasJoined c.wdog.ctxs d.ctx || env.exits d.ctx) = true → d.weight < 0)
    (hloop : collectLoop cnf env maxLat n c = some c') : InStep c'.wdog := by
  induction n generalizing c with
  | zero =>
    simp only [collectLoop, Option.some.injEq] at hloop
    exact hloop ▸ h
  | succ n ih =>
    simp only [collectLoop, Option.bind_eq_some_iff] at hloop
    obtain ⟨b, hone, hrest⟩ := hloop
    obtain ⟨hb, hbelow, hjoins⟩ :=
      collect_one_in_step (hm n (Nat.lt_succ_self n)) h (hreap n (Nat.lt_succ_self n)) hone
    apply ih (fun i hi => hm i (Nat.lt_succ_of_lt hi)) hb _ hrest
    intro i hi d hd hj
    rw [hbelow i hi] at hd
    apply hreap i (Nat.lt_succ_of_lt hi) d hd
    rcases Bool.or_eq_true_iff.mp hj with hj | hj
    · rw [hjoins d.ctx hj, Bool.true_or]
    · rw [hj, Bool.or_true]

/-- Whether a collection reaps only destinations that the router does not have,
those included whose thread exits while it is going. -/
def reapsUnlisted (w : Wdog) (env : CollectEnv) : Bool :=
  w.dst.all fun d => !(hasJoined w.ctxs d.ctx || env.exits d.ctx) || d.weight < 0

/-- What a collection consists of: the results are copied, the loop goes through the
destinations, and what a member list names may be changed. -/
theorem collect_cases (h : wdogCollectResults members cnf env w = some (w', n)) :
    ∃ ds ctxs maxLat c, copyLoop env cnf.latFactor w.dst 0 w.ctxs 0 = some (ds, ctxs, maxLat) ∧
      collectLoop cnf env maxLat ds.length ⟨{ w with dst := ds, ctxs := ctxs }, 0, none⟩ = some c ∧
      (w' = c.wdog ∨ ∃ i d memb, c.membSource = some i ∧ c.wdog.dst[i]? = some d ∧
        d.result.others = some memb ∧ w' = membershipLoop env.start (members memb) 0 c.wdog) := by
  unfold wdogCollectResults at h
  cases hcopy : copyLoop env cnf.latFactor w.dst 0 w.ctxs 0 with
  | none => simp [hcopy] at h
  | some res =>
    obtain ⟨ds, ctxs, maxLat⟩ := res
    simp only [hcopy] at h
    cases hloop : collectLoop cnf env maxLat ds.length ⟨{ w with dst := ds, ctxs := ctxs }, 0, none⟩ with
    | none => simp [hloop] at h
    | some c =>
      simp only [hloop] at h
      refine ⟨ds, ctxs, maxLat, c, rfl, hloop, ?_⟩
      cases hs : c.membSource with
      | none =>
        simp only [hs, Option.some.injEq, Prod.mk.injEq] at h
        exact Or.inl h.1.symm
      | some i =>
        simp only [hs] at h
        cases ho : (c.wdog.dst[i]?).bind (fun d => d.result.others) with
        | none => simp [ho] at h
        | some memb =>
          obtain ⟨d, hd, hmemb⟩ := Option.bind_eq_some_iff.mp ho
          simp only [ho, Option.some.injEq, Prod.mk.injEq, wdogProcessMembershipChange] at h
          split at h
          · exact Or.inr ⟨i, d, memb, rfl, hd, hmemb, h.1.symm⟩
          · exact Or.inl h.1.symm

theorem collect_in_step (h : InStep w) (hm : ∀ i < w.dst.length, (env.change i).realloc = true)
    (hreap : reapsUnlisted w env = true)
    (hrun : wdogCollectResults members cnf env w = some (w', n)) : InStep w' := by
  obtain ⟨ds, ctxs, maxLat, c, hcopy, hloop, hw'⟩ := collect_cases hrun
  obtain ⟨hfaces, hjoins⟩ := copy_loop_faces env cnf.latFactor w.dst 0 0 hcopy
  have hcopied : InStep { w with dst := ds, ctxs := ctxs } := h.faces rfl hfaces
  have hlen : ds.length = w.dst.length := by simpa using congrArg List.length hfaces
  have hreap' : ∀ i < ds.length, ∀ d, ds[i]? = some d →
      (hasJoined ctxs d.ctx || env.exits d.ctx) = true → d.weight < 0 := by
    intro i hi d hd hj
    have hface : (w.dst.map face)[i]? = some (face d) := by
      rw [← hfaces, List.getElem?_map, hd]
      rfl
    rw [List.getElem?_map] at hface
    obtain ⟨e, he, hed⟩ := Option.map_eq_some_iff.mp hface
    simp only [face, Prod.mk.injEq] at hed
    have hall := List.all_eq_true.mp hreap e (List.mem_of_getElem? he)
    rw [hed.2.1, hed.2.2, ← hjoins, hj] at hall
    simpa using hall
  have hc : InStep c.wdog :=
    collect_loop_in_step ds.length (fun i hi => hm i (hlen ▸ hi)) hcopied hreap' hloop
  rcases hw' with rfl | ⟨_, _, _, _, _, _, rfl⟩
  · exact hc
  · exact (membership_unseen _ _ _ _).inStep hc

end collect

/-- Whether the router calls of a step succeed as far as memory goes. -/
def callsSucceed (w : Wdog) : WdogOp → Bool
  | .collect env => (List.range w.dst.length).all (fun i => (env.change i).realloc)
  | _ => true

/-- Whether a step forgets only what the router does not have. -/
def forgetsUnlisted (w : Wdog) : WdogOp → Bool
  | .collect env => reapsUnlisted w env
  | _ => true

theorem Routes.inStep {r : Router} (h : InStep w) (hr : Routes w.router r) : InStep { w with router := r } :=
  ⟨hr.sound h.sound, h.nodup, (hr.fixed h.sound.unique).trans h.rows⟩

theorem on_ctx_in_step (h : InStep w) (hs : w.onCtx k f = some w') : InStep w' := by
  unfold Wdog.onCtx at hs
  split at hs
  · cases hs
  · split at hs
    · cases hs
    · simp only [Option.some.injEq] at hs
      exact hs ▸ h.faces rfl rfl

theorem step_in_step (h : InStep w) (hm : callsSucceed w op = true) (hok : forgetsUnlisted w op = true)
    (hstep : wdogStep members cnf w op = some w') : InStep w' := by
  cases op with
  | request env dst =>
    simp only [wdogStep, Option.some.injEq] at hstep
    exact hstep ▸ (wdog_change_unseen env w dst true).inStep h
  | post k res => exact on_ctx_in_step h hstep
  | exit k clears => exact on_ctx_in_step h hstep
  | collect env =>
    obtain ⟨⟨v, n⟩, hv, rfl⟩ := Option.map_eq_some_iff.mp hstep
    apply collect_in_step h _ hok hv
    simpa [callsSucceed] using hm
  | choose env hint =>
    simp only [wdogStep, Option.some.injEq] at hstep
    exact hstep ▸ Routes.inStep h (choose_routes h.sound rfl)
  | disconnect now a failed =>
    simp only [wdogStep, Option.some.injEq] at hstep
    exact hstep ▸ Routes.inStep h (disconnect_routes cnf now a failed h.sound)
  | chooseAgain now env hint a =>
    simp only [wdogStep, Option.some.injEq] at hstep
    exact hstep ▸ Routes.inStep h (again_routes cnf now env hint a h.sound)

theorem init_in_step (pool : Bool) : InStep (Wdog.init pool) :=
  ⟨sound_init, List.nodup_nil, rfl⟩

/-- The router's table is exactly what the watchdog's list says it should be. -/
structure Mirrors (w : Wdog) : Prop where
  once : (w.router.dst.map dstAddr).Nodup
  rows : ∀ a weight ctx,
    (∃ x ∈ w.router.dst, x.dst.addr = a ∧ x.dst.weight = weight ∧ x.probeCtx = ctx) ↔
      ∃ d ∈ w.dst, 0 ≤ d.weight ∧ d.dst.addr = a ∧ d.weight = weight ∧ some d.ctx = ctx

theorem fixed_some {r : Router} (hu : Unique r) :
    fixed r a = some (weight, ctx) ↔
      ∃ x ∈ r.dst, x.dst.addr = a ∧ x.dst.weight = weight ∧ x.probeCtx = ctx := by
  rw [fixed_eq, assoc_eq_some hu]
  simp [dstAddr, entry, Entry.fixed]

theorem watched_some (hn : (ds.map wdogAddr).Nodup) :
    watched ds a = some (weight, ctx) ↔
      ∃ d ∈ ds, 0 ≤ d.weight ∧ d.dst.addr = a ∧ d.weight = weight ∧ some d.ctx = ctx := by
  unfold watched
  rw [Option.join_eq_some_iff, assoc_eq_some hn]
  constructor
  · rintro ⟨d, hd, ha, hs⟩
    unfold wanted at hs
    split at hs
    · rename_i hw
      simp only [Option.some.injEq, Prod.mk.injEq] at hs
      exact ⟨d, hd, hw, ha, hs⟩
    · cases hs
  · rintro ⟨d, hd, hw, ha, rfl, rfl⟩
    exact ⟨d, hd, ha, by simp [wanted, hw]⟩

theorem InStep.mirrors (h : InStep w) : Mirrors w := by
  refine ⟨h.sound.unique, ?_⟩
  intro a weight ctx
  rw [← fixed_some h.sound.unique, h.rows, watched_some h.nodup]

/-- As long as the watchdog forgets a destination only after the router has, the
router mirrors its list. -/
theorem router_mirrors_wdog (cnf : Cnf) (members : String → List Dst) (pool : Bool) (ops : List WdogOp)
    (hok : Along (wdogStep members cnf)
      (fun w op => callsSucceed w op = true ∧ forgetsUnlisted w op = true) (Wdog.init pool) ops)
    (hrun : exec (wdogStep members cnf) (Wdog.init pool) ops = some w) : Mirrors w := by
  have hs : InStep w := by
    apply exec_keeps _ (init_in_step pool) hok hrun
    intro w op w' hi hc hstep
    exact step_in_step hi hc.1 hc.2 hstep
  exact hs.mirrors

def noMembers (_ : String) : List Dst := []

def discovering : Cnf := { roundRobin with discover := true }

def wdogReached (ops : List WdogOp) : Wdog :=
  (exec (wdogStep noMembers roundRobin) (Wdog.init true) ops).getD (Wdog.init true)

def started : StartEnv := ⟨true, true, 0⟩

/-- A collection at a given time during which no thread exits. -/
def collectAt (now : Int) : WdogOp :=
  .collect ⟨fun _ => true, fun _ => false, fun _ => ⟨now, now, true⟩, true, fun _ => started⟩

def report (state : DstState) : WdogOp := .post 0 ⟨state, 1, none, 0, true⟩

/-- A is added, found ready and routed to. -/
def watchA : List WdogOp := [.request started ⟨serverA, 1⟩, report .ready, collectAt 100]

/-- A is removed by a control request and its backend thread exits. -/
def forgetA : List WdogOp := [.request started ⟨serverA, -1⟩, .exit 0 true, collectAt 200]

/-- The watchdog has forgotten A and freed its context, the router still routes to
it and keeps the context for its probes. -/
theorem removed_stays_routed :
    Along (wdogStep noMembers roundRobin) (fun w op => callsSucceed w op = true) (Wdog.init true)
        (watchA ++ forgetA) ∧
      (wdogReached (watchA ++ forgetA)).dst = [] ∧
      (wdogReached (watchA ++ forgetA)).ctxs 0 = none ∧
      (wdogReached (watchA ++ forgetA)).router.dst.map (fun x => (x.dst, x.probeCtx)) =
        [(⟨serverA, 1⟩, some 0)] := by
  refine ⟨?_, ?_, ?_, ?_⟩
  all_goals decide +kernel

/-- A goes down first, which the router is told, and is removed then. -/
def downThenForgetA : List WdogOp := watchA ++ [report .notfound, collectAt 150] ++ forgetA

theorem router_mirrors_wdog_down_then_forget :
    Mirrors (wdogReached downThenForgetA) ∧ (wdogReached downThenForgetA).dst = [] ∧
      (wdogReached downThenForgetA).dropped = [serverA] := by
  refine ⟨router_mirrors_wdog roundRobin noMembers true downThenForgetA ?_ ?_, ?_, ?_⟩
  · decide +kernel
  · exact exec_getD _ (by decide +kernel)
  · decide +kernel
  · decide +kernel

end Glb.Proofs.Mirror
