import Glb.Lib.Smooth
import Glb.Proofs.Roster
import Glb.Proofs.Scan

namespace Glb.Proofs.Latency
open Function Lib.Run Lib.Smooth Lib.SwapRemove RouterFrame RouterRun RouterTable Mirror Roster

/-- The latency that a READY result reports. -/
def reported (res : WdogCheck) : Option ℚ :=
  if res.ready && res.state = .ready then some res.latency else none

/-- What the next collection finds in a context. -/
def reading (ctxs : CtxId → Option BackendCtx) (id : CtxId) : Option ℚ :=
  (ctxs id).bind (fun k => reported k.result)

/-- The watchdog with the latencies that it has collected from READY results, by the
context that the destination has had since it was added, the latest first. -/
structure Metered where
  wdog : Wdog
  seen : CtxId → List ℚ

def Metered.init (pool : Bool) : Metered := ⟨Wdog.init pool, fun _ => []⟩

/-- The latencies with those that are about to be collected. -/
def Metered.logged (m : Metered) (id : CtxId) : List ℚ := (reading m.wdog.ctxs id).toList ++ m.seen id

/-- All of them, for all the destinations that are listed. -/
def Metered.logs (m : Metered) : List ℚ := m.wdog.dst.flatMap (fun d => m.logged d.ctx)

def meterStep (members : String → List Dst) (cnf : Cnf) (m : Metered) (op : WdogOp) : Option Metered :=
  (wdogStep members cnf m.wdog op).map fun w =>
    ⟨w, match op with
      | .collect _ => m.logged
      | _ => m.seen⟩

def Between (xs : List ℚ) (x : ℚ) : Prop := (∃ lo ∈ xs, lo ≤ x) ∧ ∃ hi ∈ xs, x ≤ hi

instance (xs : List ℚ) (x : ℚ) : Decidable (Between xs x) := inferInstanceAs (Decidable (_ ∧ _))

/-- Holds of every destination that has a READY result, of its smoothed latency and of
the greatest one, between the two loops of a collection. -/
def OnReady (cnf : Cnf) (env : CollectEnv) (m : Metered) (ok : CtxId → ℚ → ℚ → Prop) : Prop :=
  match copyLoop env cnf.latFactor m.wdog.dst 0 m.wdog.ctxs 0 with
  | none => False
  | some (ds, _, maxLat) =>
    ∀ d ∈ ds, (reading m.wdog.ctxs d.ctx).isSome = true → ok d.ctx d.result.latency maxLat

instance (cnf : Cnf) (env : CollectEnv) (m : Metered) (ok : CtxId → ℚ → ℚ → Prop)
    [∀ id x y, Decidable (ok id x y)] : Decidable (OnReady cnf env m ok) := by
  unfold OnReady
  exact match copyLoop env cnf.latFactor m.wdog.dst 0 m.wdog.ctxs 0 with
  | none => inferInstanceAs (Decidable False)
  | some (ds, _, maxLat) => inferInstanceAs (Decidable
      (∀ d ∈ ds, (reading m.wdog.ctxs d.ctx).isSome = true → ok d.ctx d.result.latency maxLat))

/-- The smoothed latency is between two measurements of the destination, and the
multiplier of its weight is no more than the ratio of two measurements. -/
def Averages (cnf : Cnf) (m : Metered) : WdogOp → Prop
  | .collect env => OnReady cnf env m fun id latency maxLat =>
      Between (m.logged id) latency ∧ ∃ lo ∈ m.logs, ∃ hi ∈ m.logs, maxLat / latency ≤ hi / lo
  | _ => True

instance (cnf : Cnf) (m : Metered) (op : WdogOp) : Decidable (Averages cnf m op) := by
  unfold Averages
  exact match op with
  | .collect env => inferInstanceAs (Decidable (OnReady cnf env m fun id latency maxLat =>
      Between (m.logged id) latency ∧ ∃ lo ∈ m.logs, ∃ hi ∈ m.logs, maxLat / latency ≤ hi / lo))
  | .request .. | .post .. | .exit .. | .choose .. | .disconnect .. | .chooseAgain .. => .isTrue trivial

/-- The smoothed latency is an average of the measurements scaled down to the share that
they have after that many of them. -/
def Shares (cnf : Cnf) (m : Metered) : WdogOp → Prop
  | .collect env => OnReady cnf env m fun id latency _ =>
      ∀ lo hi, (∀ x ∈ m.logged id, lo ≤ x ∧ x ≤ hi) →
        measuredShare cnf.latFactor (m.logged id).length * lo ≤ latency ∧
          latency ≤ measuredShare cnf.latFactor (m.logged id).length * hi
  | _ => True

/-- No READY result is collected. -/
def NoReading (m : Metered) : WdogOp → Prop
  | .collect _ => ∀ d ∈ m.wdog.dst, reading m.wdog.ctxs d.ctx = none
  | _ => True

/-- READY results report positive latencies. -/
def Positive : WdogOp → Prop
  | .post _ res => ∀ x ∈ reported res, 0 < x
  | _ => True

variable {members : String → List Dst} {cnf : Cnf} {w w' v : Wdog} {m m' : Metered} {env : CollectEnv}
  {ds ds' : List WdogDst} {ctxs ctxs' : CtxId → Option BackendCtx} {d : WdogDst} {c c' : Collect}
  {op : WdogOp} {ops : List WdogOp} {i : Nat} {maxLat : ℚ} {id j : CtxId} {k : BackendCtx}

section carried

/-- Steps that collect nothing: destinations keep their latency or are new, and no
result appears. -/
structure Carried (w w' : Wdog) : Prop where
  dst : ∀ d ∈ w'.dst, (∃ e ∈ w.dst, e.ctx = d.ctx ∧ d.result.latency = e.result.latency) ∨
    (w.nextCtx ≤ d.ctx ∧ d.result.latency = 0)
  next : w.nextCtx ≤ w'.nextCtx
  ctxs : ∀ id x, reading w'.ctxs id = some x → reading w.ctxs id = some x

def gauge (d : WdogDst) : CtxId × ℚ := (d.ctx, d.result.latency)

theorem carried_same (hd : w'.dst.map gauge = w.dst.map gauge) (hn : w.nextCtx ≤ w'.nextCtx)
    (hc : ∀ id x, reading w'.ctxs id = some x → reading w.ctxs id = some x) : Carried w w' := by
  refine ⟨?_, hn, hc⟩
  intro d h
  obtain ⟨e, he, heq⟩ := mem_of_map_eq hd h
  simp only [gauge, Prod.mk.injEq] at heq
  exact Or.inl ⟨e, he, heq.1, heq.2.symm⟩

theorem Carried.refl (w : Wdog) : Carried w w := carried_same rfl (Nat.le_refl _) (fun _ _ h => h)

theorem Carried.trans (h : Carried w v) (h' : Carried v w') : Carried w w' := by
  refine ⟨?_, Nat.le_trans h.next h'.next, fun id x hx => h.ctxs id x (h'.ctxs id x hx)⟩
  intro d hd
  rcases h'.dst d hd with ⟨e, he, hec, hel⟩ | ⟨hnew, hzero⟩
  · rcases h.dst e he with ⟨f, hf, hfc, hfl⟩ | ⟨hnew, hzero⟩
    · exact Or.inl ⟨f, hf, hfc.trans hec, hel.trans hfl⟩
    · exact Or.inr ⟨hec ▸ hnew, hel.trans hzero⟩
  · exact Or.inr ⟨Nat.le_trans h.next hnew, hzero⟩

/-- Writing to a context a result that reports nothing new. -/
theorem reading_update {k : Option BackendCtx}
    (hk : ∀ x, k.bind (fun k => reported k.result) = some x → reading ctxs id = some x) (j : CtxId) (x : ℚ)
    (h : reading (update ctxs id k) j = some x) : reading ctxs j = some x := by
  unfold reading at h
  by_cases hj : j = id
  · subst hj
    rw [update_self] at h
    exact hk x h
  · rw [update_of_ne hj] at h
    exact h

theorem signal_quit_carried (w : Wdog) (id : CtxId) : Carried w (w.signalQuit id) := by
  refine carried_same rfl (Nat.le_refl _) (reading_update ?_)
  intro x hx
  unfold reading
  cases hc : w.ctxs id with
  | none => simp [hc] at hx
  | some k => simpa [hc] using hx

theorem refer_gauge (weight : ℚ) (explicit : Bool) (d : WdogDst) :
    gauge (wdogRefer weight explicit d) = gauge d := by
  unfold wdogRefer
  simp only
  split
  · rfl
  · split <;> rfl

theorem change_carried (env : StartEnv) (w : Wdog) (dst : Dst) (explicit : Bool) :
    Carried w (wdogChangeDst env w dst explicit).1 := by
  unfold wdogChangeDst
  cases wdogFindDst w dst with
  | none =>
    simp only
    split
    · exact Carried.refl w
    · split
      · exact Carried.refl w
      · split
        · refine ⟨?_, Nat.le_succ _, reading_update (by simp [reported, WdogCheck.zero])⟩
          intro d hd
          rcases List.mem_append.mp hd with hd | hd
          · exact Or.inl ⟨d, hd, rfl, rfl⟩
          · obtain rfl := List.mem_singleton.mp hd
            exact Or.inr ⟨Nat.le_refl _, rfl⟩
        · exact carried_same rfl (Nat.le_succ _) (fun _ _ h => h)
  | some i =>
    simp only
    cases w.dst[i]? with
    | none => exact Carried.refl w
    | some d =>
      simp only
      split
      · split
        · exact signal_quit_carried w d.ctx
        · exact Carried.refl w
      · exact carried_same (map_modify _ _ _ _ (refer_gauge dst.weight explicit)) (Nat.le_refl _)
          (fun _ _ h => h)

theorem membership_carried (start : Nat → StartEnv) (dsts : List Dst) (i : Nat) (w : Wdog) :
    Carried w (membershipLoop start dsts i w) := by
  induction dsts generalizing i w with
  | nil => exact Carried.refl w
  | cons dst dsts ih => exact (change_carried (start i) w dst false).trans (ih (i + 1) _)

theorem hold_gauge (d : WdogDst) : gauge (wdogHold d) = gauge d := by
  unfold wdogHold
  split
  · rfl
  · simp only
    split <;> split <;> rfl

theorem collect_one_carried (h : collectOne cnf env maxLat c i = some c') : Carried c.wdog c'.wdog := by
  obtain ⟨d, hd, hv⟩ := visit_cases h
  cases hv with
  | reaped =>
    refine ⟨?_, Nat.le_refl _, reading_update (fun x hx => nomatch hx)⟩
    intro e he
    exact Or.inl ⟨e, (swapRemove_perm _ _ _ hd).mem_iff.mpr (List.mem_cons_of_mem _ he), rfl, rfl⟩
  | kept results membSource =>
    obtain ⟨hctxs, hn, hmap⟩ := update_router_frame cnf (env.change i)
      { c.wdog with dst := c.wdog.dst.modify i wdogHold } i (wdogHold d) (wdogNewWeight cnf maxLat d)
      gauge (fun _ _ => rfl)
    refine carried_same (hmap.trans (map_modify _ _ _ _ hold_gauge)) (Nat.le_of_eq hn.symm) ?_
    intro id x hx
    rwa [hctxs] at hx

theorem collect_loop_carried (n : Nat) (h : collectLoop cnf env maxLat n c = some c') :
    Carried c.wdog c'.wdog := by
  induction n generalizing c with
  | zero =>
    simp only [collectLoop, Option.some.injEq] at h
    exact h ▸ Carried.refl _
  | succ n ih =>
    simp only [collectLoop, Option.bind_eq_some_iff] at h
    obtain ⟨b, hone, hrest⟩ := h
    exact (collect_one_carried hone).trans (ih hrest)

end carried

section copy

/-- What a collection makes of a stored latency. -/
def smoothed (lf : Int) (old : ℚ) (fresh : Option ℚ) : ℚ :=
  fresh.elim old (fun x => (x + old * lf) / (lf + 1))

theorem copy_latency (realloc : Bool) (lf : Int) (d : WdogDst) (k : BackendCtx) (maxLat : ℚ) :
    (wdogCopyResult realloc lf d k maxLat).1.result.latency =
      smoothed lf d.result.latency (reported k.result) := by
  unfold wdogCopyResult reported smoothed
  simp only
  split <;> rfl

/-- The greatest latency is that of a READY result. -/
theorem copy_max (realloc : Bool) (lf : Int) (d : WdogDst) (k : BackendCtx) (maxLat : ℚ) :
    (wdogCopyResult realloc lf d k maxLat).2.2 = maxLat ∨ ((reported k.result).isSome = true ∧
      (wdogCopyResult realloc lf d k maxLat).2.2 =
        (wdogCopyResult realloc lf d k maxLat).1.result.latency) := by
  unfold wdogCopyResult reported
  simp only
  split
  · simp only
    split
    · exact Or.inr ⟨rfl, rfl⟩
    · exact Or.inl rfl
  · exact Or.inl rfl

/-- A result is collected once. -/
theorem copy_taken (realloc : Bool) (lf : Int) (d : WdogDst) (k : BackendCtx) (maxLat : ℚ) :
    reported (wdogCopyResult realloc lf d k maxLat).2.1.result = none := by
  have hready : (wdogCopyResult realloc lf d k maxLat).2.1.result.ready = false := by
    unfold wdogCopyResult
    simp only
    split <;> split <;> try rfl
    all_goals split <;> try rfl
    all_goals split <;> rfl
  simp [reported, hready]

theorem reading_of (hc : ctxs id = some k) : reading ctxs id = reported k.result := by
  simp [reading, hc]

theorem reading_other {k : Option BackendCtx} (h : id ≠ j) : reading (update ctxs j k) id = reading ctxs id := by
  simp only [reading, update_of_ne h]

theorem copy_loop_readings (hn : (ds.map WdogDst.ctx).Nodup)
    (h : copyLoop env lf ds i ctxs maxLat = some (ds', ctxs', y)) :
    (∀ d' ∈ ds', ∃ d ∈ ds, d.ctx = d'.ctx ∧
      d'.result.latency = smoothed lf d.result.latency (reading ctxs d.ctx)) ∧
    (y = maxLat ∨ ∃ d' ∈ ds', (reading ctxs d'.ctx).isSome = true ∧ y = d'.result.latency) ∧
    ∀ id x, reading ctxs' id = some x → reading ctxs id = some x := by
  induction ds generalizing i ctxs maxLat ds' with
  | nil =>
    simp only [copyLoop, Option.some.injEq, Prod.mk.injEq] at h
    obtain ⟨rfl, rfl, rfl⟩ := h
    exact ⟨by simp, Or.inl rfl, fun _ _ h => h⟩
  | cons d ds ih =>
    obtain ⟨k, es, hc, rfl, hrest⟩ := copy_cons h
    obtain ⟨hnot, hn⟩ := List.nodup_cons.mp hn
    have hctx : (wdogCopyResult (env.realloc i) lf d k maxLat).1.ctx = d.ctx :=
      (copy_result_copied (env.realloc i) lf d k maxLat).ctx
    obtain ⟨hall, hmax, hread⟩ := ih hn hrest
    -- the other destinations have contexts of their own
    have hother : ∀ e ∈ ds, ∀ k, reading (update ctxs d.ctx k) e.ctx = reading ctxs e.ctx :=
      fun e he k => reading_other (fun heq => hnot (heq ▸ List.mem_map_of_mem he))
    refine ⟨?_, ?_, ?_⟩
    · intro d' hd'
      rcases List.mem_cons.mp hd' with rfl | hd'
      · exact ⟨d, List.mem_cons_self, hctx.symm, by rw [copy_latency, reading_of hc]⟩
      · obtain ⟨e, he, hec, hel⟩ := hall d' hd'
        rw [hother e he] at hel
        exact ⟨e, List.mem_cons_of_mem _ he, hec, hel⟩
    · rcases hmax with rfl | ⟨d', hd', hsome, hy⟩
      · rcases copy_max (env.realloc i) lf d k maxLat with hsame | ⟨hsome, hlat⟩
        · exact Or.inl hsame
        · exact Or.inr ⟨_, List.mem_cons_self, by rwa [hctx, reading_of hc], hlat⟩
      · obtain ⟨e, he, hec, _⟩ := hall d' hd'
        rw [← hec, hother e he, hec] at hsome
        exact Or.inr ⟨d', List.mem_cons_of_mem _ hd', hsome, hy⟩
    · intro id x hx
      refine reading_update ?_ id x (hread id x hx)
      intro z hz
      rw [Option.bind_some, copy_taken] at hz
      cases hz

end copy

section run

/-- Every destination stores the smoothed value of its measurements, from zero. -/
structure Smoothed (cnf : Cnf) (m : Metered) : Prop where
  manned : Manned m.wdog
  stored : ∀ d ∈ m.wdog.dst, d.result.latency = smooth cnf.latFactor (m.seen d.ctx)
  fresh : ∀ id, m.wdog.nextCtx ≤ id → m.seen id = []
  pos : ∀ id, ∀ x ∈ m.seen id, 0 < x
  posted : ∀ id x, reading m.wdog.ctxs id = some x → 0 < x

theorem kept_init (cnf : Cnf) (pool : Bool) : Smoothed cnf (.init pool) :=
  ⟨manned_init pool, by simp [Metered.init, Wdog.init], fun _ _ => rfl, by simp [Metered.init],
    by simp [Metered.init, Wdog.init, reading]⟩

theorem smooth_logged (m : Metered) (id : CtxId) :
    smoothed lf (smooth lf (m.seen id)) (reading m.wdog.ctxs id) = smooth lf (m.logged id) := by
  unfold Metered.logged
  cases reading m.wdog.ctxs id with
  | none => rfl
  | some x => rfl

theorem Smoothed.logged_fresh (h : Smoothed cnf m) (hid : m.wdog.nextCtx ≤ id) : m.logged id = [] := by
  have hnone : m.wdog.ctxs id = none := by
    cases hc : m.wdog.ctxs id with
    | none => rfl
    | some k =>
      have hlisted := (h.manned.alloc id).mp (by rw [hc]; rfl)
      exact absurd (h.manned.fresh id hlisted) (Nat.not_lt.mpr hid)
  simp [Metered.logged, reading, hnone, h.fresh id hid]

theorem Smoothed.logged_pos (h : Smoothed cnf m) (id : CtxId) : ∀ x ∈ m.logged id, 0 < x := by
  intro x hx
  rcases List.mem_append.mp hx with hx | hx
  · exact h.posted id x (Option.mem_toList.mp hx)
  · exact h.pos id x hx

/-- The rule for steps that collect nothing. -/
theorem Smoothed.carried (h : Smoothed cnf m) (hm : Manned w') (hc : Carried m.wdog w') :
    Smoothed cnf ⟨w', m.seen⟩ := by
  refine ⟨hm, ?_, fun id hid => h.fresh id (Nat.le_trans hc.next hid), h.pos,
    fun id x hx => h.posted id x (hc.ctxs id x hx)⟩
  intro d hd
  rcases hc.dst d hd with ⟨e, he, hec, hel⟩ | ⟨hnew, hzero⟩
  · rw [hel, h.stored e he, hec]
  · rw [hzero, h.fresh d.ctx hnew]
    rfl

/-- The rule for the first loop of a collection. -/
theorem Smoothed.copied (h : Smoothed cnf m)
    (hcopy : copyLoop env cnf.latFactor m.wdog.dst 0 m.wdog.ctxs 0 = some (ds, ctxs, y))
    (hm : Manned w') (hc : Carried { m.wdog with dst := ds, ctxs := ctxs } w') :
    Smoothed cnf ⟨w', m.logged⟩ := by
  have hn := h.manned.ctxs
  rw [ctxs_of_roster] at hn
  obtain ⟨hall, _, hread⟩ := copy_loop_readings hn hcopy
  refine ⟨hm, ?_, fun id hid => h.logged_fresh (Nat.le_trans hc.next hid), h.logged_pos,
    fun id x hx => h.posted id x (hread id x (hc.ctxs id x hx))⟩
  intro d hd
  rcases hc.dst d hd with ⟨e, he, hec, hel⟩ | ⟨hnew, hzero⟩
  · obtain ⟨f, hf, hfe, hlat⟩ := hall e he
    rw [hel, hlat, h.stored f hf, smooth_logged, hfe, hec]
  · have hnone : m.logged d.ctx = [] := h.logged_fresh hnew
    simp only [hzero, hnone]
    rfl

theorem exit_carried {clears : Bool} (h : w.onCtx id (fun c => { c with join := true, result := if clears then .zero else c.result }) =
    some w') : Carried w w' := by
  unfold Wdog.onCtx at h
  split at h
  · cases h
  · rename_i k hk
    split at h
    · cases h
    · obtain rfl := Option.some.inj h
      refine carried_same rfl (Nat.le_refl _) (reading_update ?_)
      intro x hx
      rw [reading_of hk]
      cases clears with
      | true => simp [reported, WdogCheck.zero] at hx
      | false => exact hx

theorem post_kept (h : Smoothed cnf m) (hm : Manned w') (hp : ∀ x ∈ reported res, 0 < x)
    (hs : m.wdog.onCtx id (fun c => { c with result := res }) = some w') : Smoothed cnf ⟨w', m.seen⟩ := by
  unfold Wdog.onCtx at hs
  split at hs
  · cases hs
  · split at hs
    · cases hs
    · obtain rfl := Option.some.inj hs
      refine ⟨hm, h.stored, h.fresh, h.pos, ?_⟩
      intro j x hx
      by_cases hj : j = id
      · subst hj
        rw [reading_of (update_self _ _ _)] at hx
        exact hp x hx
      · rw [reading_other hj] at hx
        exact h.posted j x hx

theorem step_smoothed (h : Smoothed cnf m) (hp : Positive op) (hs : meterStep members cnf m op = some m') :
    Smoothed cnf m' := by
  obtain ⟨w', hw, rfl⟩ := Option.map_eq_some_iff.mp hs
  have hm := step_manned h.manned hw
  cases op with
  | request env dst =>
    obtain rfl := Option.some.inj hw
    exact h.carried hm (change_carried env m.wdog dst true)
  | post id res => exact post_kept h hm hp hw
  | exit id clears => exact h.carried hm (exit_carried hw)
  | collect env =>
    obtain ⟨⟨v, n⟩, hv, rfl⟩ := Option.map_eq_some_iff.mp hw
    obtain ⟨ds, ctxs, y, c, hcopy, hloop, rfl | ⟨i, d, memb, _, _, _, rfl⟩⟩ := collect_cases hv
    · exact h.copied hcopy hm (collect_loop_carried _ hloop)
    · exact h.copied hcopy hm ((collect_loop_carried _ hloop).trans (membership_carried _ _ _ _))
  | choose env hint =>
    obtain rfl := Option.some.inj hw
    exact h.carried hm (carried_same rfl (Nat.le_refl _) (fun _ _ h => h))
  | disconnect now a failed =>
    obtain rfl := Option.some.inj hw
    exact h.carried hm (carried_same rfl (Nat.le_refl _) (fun _ _ h => h))
  | chooseAgain now env hint a =>
    obtain rfl := Option.some.inj hw
    exact h.carried hm (carried_same rfl (Nat.le_refl _) (fun _ _ h => h))

/-- What the first loop leaves for a READY result. -/
structure FreshLatency (cnf : Cnf) (m : Metered) (ds : List WdogDst) (y : ℚ) : Prop where
  listed : ∀ d ∈ ds, d.ctx ∈ m.wdog.dst.map WdogDst.ctx
  stored : ∀ d ∈ ds, d.result.latency = smooth cnf.latFactor (m.logged d.ctx)
  max : y = 0 ∨ ∃ d ∈ ds, (reading m.wdog.ctxs d.ctx).isSome = true ∧ y = d.result.latency

theorem Smoothed.on_ready (h : Smoothed cnf m) (env : CollectEnv) :
    ∃ ds y, FreshLatency cnf m ds y ∧ (∀ e ∈ m.wdog.dst, ∃ d ∈ ds, d.ctx = e.ctx) ∧
      ∀ ok, OnReady cnf env m ok ↔
        ∀ d ∈ ds, (reading m.wdog.ctxs d.ctx).isSome = true → ok d.ctx d.result.latency y := by
  have hn := h.manned.ctxs
  rw [ctxs_of_roster] at hn
  obtain ⟨ds, ctxs, y, hcopy, _, _, _⟩ := Scan.copy_loop_all env cnf.latFactor m.wdog.dst 0 0 hn
    (fun d hd => Option.isSome_iff_exists.mpr (h.manned.ctx_of hd))
  obtain ⟨hall, hmax, _⟩ := copy_loop_readings hn hcopy
  have hctxs : ds.map WdogDst.ctx = m.wdog.dst.map WdogDst.ctx :=
    (copy_loop_faces env cnf.latFactor m.wdog.dst 0 0 hcopy).1.map WdogDst.ctx (fun x => x.2.2) (fun _ => rfl)
  refine ⟨ds, y, ⟨?_, ?_, hmax⟩, ?_, ?_⟩
  · intro d hd
    exact hctxs ▸ List.mem_map_of_mem hd
  · intro d hd
    obtain ⟨e, he, hec, hlat⟩ := hall d hd
    rw [hlat, h.stored e he, smooth_logged, hec]
  · intro e he
    exact mem_of_map_eq hctxs.symm he
  · intro ok
    simp only [OnReady, hcopy]

/-- Without smoothing the latency is the measurement, and the greatest one is too. -/
theorem averages_unsmoothed (h : Smoothed cnf m) (hlf : cnf.latFactor = 0) (op : WdogOp) : Averages cnf m op := by
  cases op with
  | collect env =>
    obtain ⟨ds, y, hf, _, hiff⟩ := h.on_ready env
    have hlatest : ∀ d ∈ ds, (reading m.wdog.ctxs d.ctx).isSome = true →
        d.result.latency ∈ m.logged d.ctx := by
      intro d hd hsome
      obtain ⟨x, hx⟩ := Option.isSome_iff_exists.mp hsome
      rw [hf.stored d hd, hlf, Metered.logged, hx]
      simp [smooth_none]
    have hall : ∀ d ∈ ds, (reading m.wdog.ctxs d.ctx).isSome = true → d.result.latency ∈ m.logs := by
      intro d hd hsome
      obtain ⟨e, he, hec⟩ := List.mem_map.mp (hf.listed d hd)
      exact List.mem_flatMap.mpr ⟨e, he, hec ▸ hlatest d hd hsome⟩
    simp only [Averages, hiff]
    intro d hd hsome
    have hmem := hlatest d hd hsome
    have hpos := h.logged_pos d.ctx _ hmem
    refine ⟨⟨⟨_, hmem, le_refl _⟩, ⟨_, hmem, le_refl _⟩⟩, _, hall d hd hsome, ?_⟩
    rcases hf.max with rfl | ⟨e, he, hes, rfl⟩
    · exact ⟨_, hall d hd hsome, by rw [zero_div, div_self hpos.ne']; exact zero_le_one⟩
    · exact ⟨_, hall e he hes, le_refl _⟩
  | _ => trivial

theorem averages_quiet (h : Smoothed cnf m) (hq : NoReading m op) : Averages cnf m op := by
  cases op with
  | collect env =>
    obtain ⟨ds, y, hf, _, hiff⟩ := h.on_ready env
    simp only [Averages, hiff]
    intro d hd hsome
    obtain ⟨e, he, hec⟩ := List.mem_map.mp (hf.listed d hd)
    rw [← hec, hq e he] at hsome
    cases hsome
  | _ => trivial

/-- With smoothing, the first READY result of a destination leaves less than it
reports. -/
theorem quiet_of_averages (h : Smoothed cnf m) (hlf : 0 < cnf.latFactor) (hnone : ∀ id, m.seen id = [])
    (ha : Averages cnf m op) : NoReading m op := by
  cases op with
  | collect env =>
    obtain ⟨ds, y, hf, hback, hiff⟩ := h.on_ready env
    simp only [Averages, hiff] at ha
    intro e he
    cases hx : reading m.wdog.ctxs e.ctx with
    | none => rfl
    | some x =>
      obtain ⟨d, hd, hde⟩ := hback e he
      have hread : reading m.wdog.ctxs d.ctx = some x := hde ▸ hx
      have hlog : m.logged d.ctx = [x] := by simp [Metered.logged, hread, hnone]
      obtain ⟨⟨lo, hlo, hle⟩, _⟩ := (ha d hd (by rw [hread]; rfl)).1
      rw [hf.stored d hd, hlog] at hle
      rw [hlog, List.mem_singleton] at hlo
      subst hlo
      have hpos : (0 : ℚ) < cnf.latFactor := by exact_mod_cast hlf
      exact absurd hle (not_le.mpr (smooth_first_lt hpos (h.posted _ _ hx)))
  | _ => trivial

theorem shares_kept (h : Smoothed cnf m) (hlf : 0 ≤ cnf.latFactor) (op : WdogOp) : Shares cnf m op := by
  cases op with
  | collect env =>
    obtain ⟨ds, y, hf, _, hiff⟩ := h.on_ready env
    simp only [Shares, hiff]
    intro d hd _ lo hi hb
    rw [hf.stored d hd]
    exact smooth_between (by exact_mod_cast hlf) hb
  | _ => trivial

theorem quiet_seen (hs : meterStep members cnf m op = some m') (h : Smoothed cnf m) (hq : NoReading m op)
    (hnone : ∀ id, m.seen id = []) : ∀ id, m'.seen id = [] := by
  obtain ⟨w', hw, rfl⟩ := Option.map_eq_some_iff.mp hs
  cases op with
  | collect env =>
    intro id
    have hread : reading m.wdog.ctxs id = none := by
      cases hx : reading m.wdog.ctxs id with
      | none => rfl
      | some x =>
        obtain ⟨k, hk, _⟩ := Option.bind_eq_some_iff.mp hx
        have hlisted := (h.manned.alloc id).mp (by rw [hk]; rfl)
        rw [ctxs_of_roster] at hlisted
        obtain ⟨d, hd, rfl⟩ := List.mem_map.mp hlisted
        rw [hq d hd] at hx
        cases hx
    simp [Metered.logged, hread, hnone id]
  | _ => exact hnone

/-- The stored latency lies between two measurements after every READY result exactly
if there is no smoothing or no READY result: the smoothing starts from the zero of a
new destination. In any case it is what an average of the measurements is, scaled down
to their share in it. -/
theorem latency_averages_iff (members : String → List Dst) (pool : Bool) (hlf : 0 ≤ cnf.latFactor)
    (hpos : ∀ op ∈ ops, Positive op) :
    (Along (meterStep members cnf) (Averages cnf) (.init pool) ops ↔
      cnf.latFactor = 0 ∨ Along (meterStep members cnf) NoReading (.init pool) ops) ∧
    Along (meterStep members cnf) (Shares cnf) (.init pool) ops := by
  have hops := along_labels (along_true (meterStep members cnf) (Metered.init pool) ops) hpos
  have keep : ∀ m op m', Smoothed cnf m → True ∧ Positive op → meterStep members cnf m op = some m' →
      Smoothed cnf m' := fun m op m' h hp hs => step_smoothed h hp.2 hs
  refine ⟨⟨?_, ?_⟩, along_keeps keep (fun m op h _ => shares_kept h hlf op) (kept_init cnf pool) hops⟩
  · intro ha
    rcases eq_or_lt_of_le hlf with heq | hlt
    · exact Or.inl heq.symm
    · have quiet : ∀ m op, (Smoothed cnf m ∧ ∀ id, m.seen id = []) → Averages cnf m op ∧ Positive op → NoReading m op :=
        fun m op h hok => quiet_of_averages h.1 hlt h.2 hok.1
      have keep' : ∀ m op m', (Smoothed cnf m ∧ ∀ id, m.seen id = []) → Averages cnf m op ∧ Positive op →
          meterStep members cnf m op = some m' → Smoothed cnf m' ∧ ∀ id, m'.seen id = [] :=
        fun m op m' h hok hs => ⟨step_smoothed h.1 hok.2 hs, quiet_seen hs h.1 (quiet m op h hok) h.2⟩
      exact Or.inr (along_keeps keep' quiet ⟨kept_init cnf pool, fun _ => rfl⟩ (along_labels ha hpos))
  · rintro (hzero | hq)
    · exact along_keeps keep (fun m op h _ => averages_unsmoothed h hzero op) (kept_init cnf pool) hops
    · have keep' : ∀ m op m', Smoothed cnf m → NoReading m op ∧ Positive op → meterStep members cnf m op = some m' →
          Smoothed cnf m' := fun m op m' h hp hs => step_smoothed h hp.2 hs
      exact along_keeps keep' (fun m op h hok => averages_quiet h hok.1) (kept_init cnf pool)
        (along_labels hq hpos)

/-- A is measured twice. -/
def measuredTwice : List WdogOp :=
  [.request started ⟨serverA, 1⟩, .post 0 ⟨.ready, 10, none, 0, true⟩, .collect Scan.collectAll,
    .post 0 ⟨.ready, 20, none, 0, true⟩, .collect Scan.collectAll]

theorem measured_twice_positive : ∀ op ∈ measuredTwice, Positive op := by
  simp [measuredTwice, Positive, reported]

theorem latency_averages_unsmoothed :
    Along (meterStep noMembers roundRobin) (Averages roundRobin) (.init true) measuredTwice :=
  (latency_averages_iff noMembers true (by decide) measured_twice_positive).1.mpr (Or.inl rfl)

def smoothing : Cnf := { roundRobin with latFactor := 1 }

/-- The first measurement of A is 10, and the watchdog stores 5. -/
theorem first_latency_halved :
    (∀ op ∈ measuredTwice, Positive op) ∧
      ¬ Along (meterStep noMembers smoothing) (Averages smoothing) (.init true) measuredTwice ∧
      (exec (meterStep noMembers smoothing) (.init true) (measuredTwice.take 3)).map
        (fun m => m.wdog.dst.map (fun d => (d.result.latency, m.seen d.ctx))) = some [(5, [10])] :=
  ⟨measured_twice_positive, by decide +kernel, by decide +kernel⟩

end run

end Glb.Proofs.Latency
