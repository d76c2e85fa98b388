import Glb.Lib.Sweep
import Glb.Proofs.Mirror

namespace Glb.Proofs.Scan
open Function Lib.Run Lib.SwapRemove Lib.Sweep RouterFrame RouterRun RouterTable Mirror

variable {cnf : Cnf} {env : CollectEnv} {maxLat : ℚ} {w : Wdog} {c c' : Collect} {d e : WdogDst}
  {k : BackendCtx} {n s i : Nat} {ctxs ctxs' : CtxId → Option BackendCtx}

/-- Every destination has a context, and no two share one. -/
structure OwnContexts (w : Wdog) : Prop where
  nodup : (w.dst.map WdogDst.ctx).Nodup
  alive : ∀ d ∈ w.dst, (w.ctxs d.ctx).isSome

/-- Whether the thread of a destination has exited when the second loop comes to it. -/
def joinable (env : CollectEnv) (ctxs : CtxId → Option BackendCtx) (d : WdogDst) : Bool :=
  hasJoined ctxs d.ctx || env.exits d.ctx

/-- A destination without what a collection may change of it. -/
def badge (d : WdogDst) : Dst × CtxId × Bool := (d.dst, d.ctx, d.explicit)

/-- What the weight update leaves of a destination. -/
def Renewed (d e : WdogDst) : Prop := ∃ weight, e = { wdogHold d with weight := weight }

/-- The destinations that the second loop runs the weight update for, in turn. -/
def updates (cnf : Cnf) (env : CollectEnv) (maxLat : ℚ) : Nat → Collect → List WdogDst
  | 0, _ => []
  | n + 1, c =>
    match collectOne cnf env maxLat c n with
    | none => []
    | some c' =>
      (c.wdog.dst[n]?).toList.filter (fun d => !joinable env c.wdog.ctxs d) ++ updates cnf env maxLat n c'

/-- The destination at which the second loop sets `memb_source`. -/
def recorded (cnf : Cnf) (env : CollectEnv) (maxLat : ℚ) : Nat → Collect → Option WdogDst
  | 0, _ => none
  | n + 1, c =>
    match collectOne cnf env maxLat c n with
    | none => none
    | some c' =>
      if c.membSource.isNone && c'.membSource.isSome then c.wdog.dst[n]? else recorded cnf env maxLat n c'

section body

theorem modify_eq_set {l : List α} {f : α → α} {x : α} (hx : l[n]? = some x) :
    l.modify n f = l.set n (f x) := by
  rw [List.modify_eq_set_getElem?, hx]
  rfl

theorem update_router_set (cnf : Cnf) (env : ChangeEnv) (new : ℚ) (hd : w.dst[n]? = some d) :
    ∃ e, Renewed d e ∧
      (wdogUpdateRouter cnf env { w with dst := w.dst.modify n wdogHold } n (wdogHold d) new).dst =
        w.dst.set n e := by
  have hheld : w.dst.modify n wdogHold = w.dst.set n (wdogHold d) := modify_eq_set hd
  have hn : n < w.dst.length := (List.getElem?_eq_some_iff.mp hd).1
  unfold wdogUpdateRouter
  split
  · simp only
    split
    · refine ⟨{ wdogHold d with weight := new }, ⟨new, rfl⟩, ?_⟩
      simp only [hheld]
      rw [modify_eq_set (x := wdogHold d) (by simp [hn]), List.set_set]
    · exact ⟨wdogHold d, ⟨_, rfl⟩, hheld⟩
  · exact ⟨wdogHold d, ⟨_, rfl⟩, hheld⟩

/-- The second loop at work: what is still listed has its context as the loop found it
in the beginning. -/
structure Running (ctxs : CtxId → Option BackendCtx) (c : Collect) : Prop where
  owned : OwnContexts c.wdog
  same : ∀ d ∈ c.wdog.dst, c.wdog.ctxs d.ctx = ctxs d.ctx

/-- What the second loop does at one index. -/
inductive Body (cnf : Cnf) (env : CollectEnv) (ctxs : CtxId → Option BackendCtx) (c : Collect) (n : Nat)
    (d : WdogDst) (c' : Collect) : Prop
  | reaped (hg : joinable env ctxs d = true) (hdst : c'.wdog.dst = swapRemove c.wdog.dst n)
    (hctxs : c'.wdog.ctxs = update c.wdog.ctxs d.ctx none) (hs : c'.membSource = c.membSource)
  | kept (e : WdogDst) (hg : joinable env ctxs d = false) (he : Renewed d e)
    (hdst : c'.wdog.dst = c.wdog.dst.set n e) (hctxs : c'.wdog.ctxs = c.wdog.ctxs)
    (hs : c'.membSource =
      if c.membSource.isNone && wdogTellsMembers cnf d then some n else c.membSource)

theorem Running.joinable (h : Running ctxs c) (hd : d ∈ c.wdog.dst) :
    joinable env c.wdog.ctxs d = joinable env ctxs d := by
  simp [Scan.joinable, hasJoined, h.same d hd]

theorem Running.body (h : Running ctxs c) (cnf : Cnf) (env : CollectEnv) (maxLat : ℚ)
    (hd : c.wdog.dst[n]? = some d) :
    ∃ c', collectOne cnf env maxLat c n = some c' ∧ Body cnf env ctxs c n d c' := by
  have hmem := List.mem_of_getElem? hd
  obtain ⟨k, hk⟩ := Option.isSome_iff_exists.mp (h.owned.alive d hmem)
  have hjoin : Scan.joinable env ctxs d = (k.join || env.exits d.ctx) := by
    rw [← h.joinable hmem]
    simp [Scan.joinable, hasJoined, hk]
  unfold collectOne
  simp only [hd, hk]
  cases hg : (k.join || env.exits d.ctx) with
  | true => exact ⟨_, rfl, .reaped (hjoin.trans hg) rfl rfl rfl⟩
  | false =>
    obtain ⟨e, he, hdst⟩ := update_router_set cnf (env.change n) (wdogNewWeight cnf maxLat d) hd
    refine ⟨_, rfl, .kept e (hjoin.trans hg) he hdst ?_ rfl⟩
    exact (update_router_frame cnf _ _ _ _ _ wdogAddr (fun _ _ => rfl)).1

theorem renewed_badge (h : Renewed d e) : badge e = badge d := by
  obtain ⟨x, rfl⟩ := h
  unfold wdogHold
  split
  · rfl
  · simp only
    split <;> split <;> rfl

theorem badge_ctx (h : badge e = badge d) : e.ctx = d.ctx := congrArg (fun b => b.2.1) h

/-- A reaped destination takes its context along, so those that stay keep theirs. -/
theorem OwnContexts.reap (h : OwnContexts w) (hd : w.dst[n]? = some d) :
    ((swapRemove w.dst n).map WdogDst.ctx).Nodup ∧ ∀ e ∈ swapRemove w.dst n, e.ctx ≠ d.ctx := by
  have hperm := (swapRemove_perm w.dst n d hd).map WdogDst.ctx
  obtain ⟨hnot, hnd⟩ := List.nodup_cons.mp (hperm.nodup h.nodup)
  exact ⟨hnd, fun e he hc => hnot (hc ▸ List.mem_map_of_mem he)⟩

theorem set_ctxs (hd : w.dst[n]? = some d) (he : Renewed d e) :
    (w.dst.set n e).map WdogDst.ctx = w.dst.map WdogDst.ctx :=
  RouterCore.map_set _ _ d e WdogDst.ctx hd (badge_ctx (renewed_badge he))

theorem Body.running (hb : Body cnf env ctxs c n d c') (hd : c.wdog.dst[n]? = some d)
    (h : Running ctxs c) : Running ctxs c' := by
  cases hb with
  | reaped _ hdst hctxs _ =>
    obtain ⟨hnd, hne⟩ := h.owned.reap hd
    have hold : ∀ e ∈ c'.wdog.dst, e ∈ c.wdog.dst ∧ c'.wdog.ctxs e.ctx = c.wdog.ctxs e.ctx := by
      intro e he
      rw [hdst] at he
      exact ⟨mem_of_mem_swapRemove he, by rw [hctxs, update_of_ne (hne e he)]⟩
    refine ⟨⟨hdst ▸ hnd, ?_⟩, ?_⟩
    · intro e he
      rw [(hold e he).2]
      exact h.owned.alive e (hold e he).1
    · intro e he
      rw [(hold e he).2]
      exact h.same e (hold e he).1
  | kept e _ he hdst hctxs _ =>
    have hmap : c'.wdog.dst.map WdogDst.ctx = c.wdog.dst.map WdogDst.ctx := hdst ▸ set_ctxs hd he
    have hold : ∀ f ∈ c'.wdog.dst, ∃ f₀ ∈ c.wdog.dst, f₀.ctx = f.ctx :=
      fun f hf => mem_of_map_eq hmap hf
    refine ⟨⟨hmap ▸ h.owned.nodup, ?_⟩, ?_⟩
    · intro f hf
      obtain ⟨f₀, hf₀, hc⟩ := hold f hf
      rw [hctxs, ← hc]
      exact h.owned.alive f₀ hf₀
    · intro f hf
      obtain ⟨f₀, hf₀, hc⟩ := hold f hf
      rw [hctxs, ← hc]
      exact h.same f₀ hf₀

end body

section loop

/-- The second loop is a sweep that takes out what is joinable, by the contexts it
started with, and the weight update is run for what it keeps. -/
theorem collect_loop_swept (n : Nat) (h : Running ctxs c) (hn : n ≤ c.wdog.dst.length) :
    ∃ c', collectLoop cnf env maxLat n c = some c' ∧
      Swept (joinable env ctxs) Renewed n c.wdog.dst c'.wdog.dst (updates cnf env maxLat n c) := by
  induction n generalizing c with
  | zero => exact ⟨c, rfl, .done _⟩
  | succ n ih =>
    have hd : c.wdog.dst[n]? = some c.wdog.dst[n] := List.getElem?_eq_getElem hn
    generalize c.wdog.dst[n] = d at hd
    obtain ⟨b, hone, hb⟩ := h.body cnf env maxLat hd
    have hrun := hb.running hd h
    rw [collectLoop, hone, updates, hone, hd]
    simp only [Option.toList_some, List.filter_singleton, h.joinable (List.mem_of_getElem? hd)]
    cases hb with
    | reaped hg hdst _ _ =>
      obtain ⟨c', hloop, hswept⟩ := ih hrun (by rw [hdst, swapRemove_length]; omega)
      rw [hdst] at hswept
      refine ⟨c', hloop, .reaped hd hg ?_⟩
      simpa [hg] using hswept
    | kept e hg he hdst _ _ =>
      obtain ⟨c', hloop, hswept⟩ := ih hrun (by rw [hdst, List.length_set]; omega)
      rw [hdst] at hswept
      refine ⟨c', hloop, ?_⟩
      simpa [hg] using Swept.kept hd hg he hswept

/-- The greatest index below `n` of an entry that passes. -/
def lastBelow (p : α → Bool) (l : List α) : Nat → Option Nat
  | 0 => none
  | n + 1 => if (l[n]?).any p then some n else lastBelow p l n

theorem get_of_take {l l' : List α} (h : l'.take n = l.take n) (hs : s < n) : l'[s]? = l[s]? := by
  rw [← List.getElem?_take_of_lt hs, h, List.getElem?_take_of_lt hs]

theorem last_below_congr {p : α → Bool} {l l' : List α} (n : Nat) (h : l'.take n = l.take n) :
    lastBelow p l' n = lastBelow p l n := by
  induction n with
  | zero => rfl
  | succ n ih =>
    have hget : l'[n]? = l[n]? := get_of_take h (Nat.lt_succ_self n)
    have hrest : l'.take n = l.take n := by
      have := congrArg (List.take n) h
      simpa [List.take_take] using this
    rw [lastBelow, lastBelow, hget, ih hrest]

theorem last_below_some_iff {p : α → Bool} {l : List α} : lastBelow p l n = some s ↔
    s < n ∧ (l[s]?).any p = true ∧ ∀ j < n, s < j → (l[j]?).any p = false := by
  induction n with
  | zero => simp [lastBelow]
  | succ n ih =>
    rw [lastBelow]
    cases hp : (l[n]?).any p with
    | true =>
      simp only [↓reduceIte, Option.some.injEq]
      constructor
      · rintro rfl
        exact ⟨Nat.lt_succ_self n, hp, fun j hj hlt => by omega⟩
      · rintro ⟨hs, _, hall⟩
        by_contra hne
        have := hall n (Nat.lt_succ_self n) (by omega)
        simp [hp] at this
    | false =>
      simp only [Bool.false_eq_true, ↓reduceIte, ih]
      constructor
      · rintro ⟨hs, hps, hall⟩
        refine ⟨Nat.lt_succ_of_lt hs, hps, fun j hj hlt => ?_⟩
        rcases Nat.lt_succ_iff_lt_or_eq.mp hj with hj | rfl
        · exact hall j hj hlt
        · exact hp
      · rintro ⟨hs, hps, hall⟩
        have hne : s ≠ n := by
          rintro rfl
          rw [hp] at hps
          cases hps
        exact ⟨by omega, hps, fun j hj hlt => hall j (Nat.lt_succ_of_lt hj) hlt⟩

/-- `memb_source` is set once. -/
theorem collect_loop_set (n : Nat) (h : collectLoop cnf env maxLat n c = some c')
    (hs : c.membSource = some s) : c'.membSource = some s := by
  induction n generalizing c with
  | zero =>
    obtain rfl := Option.some.inj h
    exact hs
  | succ n ih =>
    rw [collectLoop, Option.bind_eq_some_iff] at h
    obtain ⟨b, hone, hrest⟩ := h
    refine ih hrest ?_
    unfold collectOne at hone
    simp only at hone
    split at hone
    · cases hone
    · split at hone
      · cases hone
      · split at hone
        · obtain rfl := Option.some.inj hone
          exact hs
        · obtain rfl := Option.some.inj hone
          simp [hs]

theorem renewed_result (h : Renewed d e) (hr : d.result.ready = true) : e.result = d.result := by
  obtain ⟨x, rfl⟩ := h
  simp [wdogHold, hr]

/-- Whether the second loop may take the membership from a destination. -/
def offers (cnf : Cnf) (env : CollectEnv) (ctxs : CtxId → Option BackendCtx) (d : WdogDst) : Bool :=
  !joinable env ctxs d && wdogTellsMembers cnf d

/-- The second loop has recorded the last destination that it may take the membership
from, and finds it at that index in the end if the array does not shrink to it. -/
structure Sourced (cnf : Cnf) (env : CollectEnv) (maxLat : ℚ) (ctxs : CtxId → Option BackendCtx) (n : Nat)
    (c c' : Collect) : Prop where
  source : c'.membSource = lastBelow (offers cnf env ctxs) c.wdog.dst n
  recorded : recorded cnf env maxLat n c =
    (lastBelow (offers cnf env ctxs) c.wdog.dst n).bind (fun s => c.wdog.dst[s]?)
  stays : ∀ s, lastBelow (offers cnf env ctxs) c.wdog.dst n = some s →
    (c.wdog.dst.take n).countP (joinable env ctxs) + s < c.wdog.dst.length →
    ∃ d e, c.wdog.dst[s]? = some d ∧ c'.wdog.dst[s]? = some e ∧ badge e = badge d ∧ e.result = d.result

/-- Below the index that the loop is at nothing has moved yet. -/
theorem Sourced.later {b : Collect} (h : Sourced cnf env maxLat ctxs n b c')
    (hd : c.wdog.dst[n]? = some d) (hone : collectOne cnf env maxLat c n = some b)
    (hoff : offers cnf env ctxs d = false) (hb : b.membSource = none)
    (ht : b.wdog.dst.take n = c.wdog.dst.take n)
    (hl : b.wdog.dst.length + (if joinable env ctxs d then 1 else 0) = c.wdog.dst.length) :
    Sourced cnf env maxLat ctxs (n + 1) c c' := by
  have hlast : lastBelow (offers cnf env ctxs) c.wdog.dst (n + 1) =
      lastBelow (offers cnf env ctxs) b.wdog.dst n := by
    rw [lastBelow, hd, last_below_congr n ht]
    simp [hoff]
  refine ⟨hlast ▸ h.source, ?_, ?_⟩
  · rw [Scan.recorded, hone, hlast]
    simp only [hb, Option.isSome_none, Bool.and_false, Bool.false_eq_true, ↓reduceIte]
    rw [h.recorded]
    cases hs : lastBelow (offers cnf env ctxs) b.wdog.dst n with
    | none => rfl
    | some s => exact get_of_take ht (last_below_some_iff.mp hs).1
  · intro s hs hlt
    rw [hlast] at hs
    rw [count_succ hd] at hlt
    obtain ⟨d', e, hd', he⟩ := h.stays s hs (by rw [ht]; omega)
    exact ⟨d', e, get_of_take ht (last_below_some_iff.mp hs).1 ▸ hd', he⟩

theorem collect_loop_source (n : Nat) (h : Running ctxs c) (hn : n ≤ c.wdog.dst.length)
    (hnone : c.membSource = none) (hloop : collectLoop cnf env maxLat n c = some c') :
    Sourced cnf env maxLat ctxs n c c' := by
  induction n generalizing c with
  | zero =>
    obtain rfl := Option.some.inj hloop
    exact ⟨hnone, rfl, nofun⟩
  | succ n ih =>
    have hd : c.wdog.dst[n]? = some c.wdog.dst[n] := List.getElem?_eq_getElem hn
    generalize c.wdog.dst[n] = d at hd
    obtain ⟨b, hone, hb⟩ := h.body cnf env maxLat hd
    have hrun := hb.running hd h
    rw [collectLoop, hone] at hloop
    cases hb with
    | reaped hg hdst _ hs =>
      have hlen : b.wdog.dst.length + 1 = c.wdog.dst.length := by
        rw [hdst, swapRemove_length]
        omega
      refine (ih hrun (by omega) (hs.trans hnone) hloop).later hd hone ?_ (hs.trans hnone) ?_ ?_
      · simp [offers, hg]
      · rw [hdst, swapRemove_take _ _ hn]
      · rw [if_pos hg, hlen]
    | kept e hg he hdst _ hs =>
      have hlen : b.wdog.dst.length = c.wdog.dst.length := by rw [hdst, List.length_set]
      have htake : b.wdog.dst.take n = c.wdog.dst.take n := by
        rw [hdst, List.take_set_of_le (Nat.le_refl n)]
      cases ht : wdogTellsMembers cnf d with
      | false =>
        have hb : b.membSource = none := by simp [hs, hnone, ht]
        refine (ih hrun (by omega) hb hloop).later hd hone ?_ hb htake ?_
        · simp [offers, ht]
        · simp [hg, hlen]
      | true =>
        -- this is the one: from here on the loop is a sweep of what lies below it
        have hb : b.membSource = some n := by simp [hs, hnone, ht]
        have hlast : lastBelow (offers cnf env ctxs) c.wdog.dst (n + 1) = some n := by
          simp [lastBelow, hd, offers, hg, ht]
        refine ⟨(collect_loop_set n hloop hb).trans hlast.symm, ?_, ?_⟩
        · rw [recorded, hone, hlast]
          simp [hnone, hb]
        · intro s hs' hlt
          obtain rfl : n = s := Option.some.inj (hlast.symm.trans hs')
          obtain ⟨c'', hloop', hswept⟩ := collect_loop_swept n hrun (by omega)
          obtain rfl : c' = c'' := Option.some.inj (hloop.symm.trans hloop')
          rw [count_succ hd, hg] at hlt
          have hget := hswept.get (Nat.le_refl n) (by rw [htake, hlen]; simpa using hlt)
          have hready : d.result.ready = true := by
            simp only [wdogTellsMembers, Bool.and_eq_true] at ht
            exact ht.1.1.2
          have hen : b.wdog.dst[n]? = some e := by
            rw [hdst, List.getElem?_set_self hn]
          exact ⟨d, e, hd, hget.trans hen, renewed_badge he, renewed_result he hready⟩

end loop

section copy

theorem copy_result_lat (realloc : Bool) (lf : Int) (d : WdogDst) (k : BackendCtx) (maxLat : ℚ) :
    (wdogCopyResult realloc lf d k maxLat).1 = (wdogCopyResult realloc lf d k 0).1 := by
  unfold wdogCopyResult
  simp only
  split <;> rfl

/-- The first loop comes to its end, and what it makes of a destination depends on that
destination and its context only. -/
theorem copy_loop_all (env : CollectEnv) (lf : Int) (ds : List WdogDst) (i : Nat) (maxLat : ℚ)
    (hn : (ds.map WdogDst.ctx).Nodup) (ha : ∀ d ∈ ds, (ctxs d.ctx).isSome) :
    ∃ ds' ctxs' m, copyLoop env lf ds i ctxs maxLat = some (ds', ctxs', m) ∧
      (∀ id, (ctxs' id).isSome = (ctxs id).isSome) ∧ ds'.length = ds.length ∧
      ∀ j d, ds[j]? = some d → ∃ k, ctxs d.ctx = some k ∧
        ds'[j]? = some (wdogCopyResult (env.realloc (i + j)) lf d k 0).1 := by
  induction ds generalizing i ctxs maxLat with
  | nil => exact ⟨[], ctxs, maxLat, rfl, fun _ => rfl, rfl, by simp⟩
  | cons d ds ih =>
    obtain ⟨k, hk⟩ := Option.isSome_iff_exists.mp (ha d (by simp))
    obtain ⟨hnot, hn⟩ := List.nodup_cons.mp hn
    have hother : ∀ e ∈ ds, e.ctx ≠ d.ctx := fun e he hc => hnot (hc ▸ List.mem_map_of_mem he)
    have hctxs : ∀ e ∈ ds, ∀ x, update ctxs d.ctx x e.ctx = ctxs e.ctx :=
      fun e he x => update_of_ne (hother e he) _ _
    have ha' : ∀ e ∈ ds, (update ctxs d.ctx
        (some (wdogCopyResult (env.realloc i) lf d k maxLat).2.1) e.ctx).isSome := by
      intro e he
      rw [hctxs e he]
      exact ha e (by simp [he])
    obtain ⟨ds', ctxs', m, hcopy, hsome, hlen, hall⟩ :=
      ih (i + 1) (wdogCopyResult (env.realloc i) lf d k maxLat).2.2 hn ha'
    refine ⟨_, ctxs', m, by simp only [copyLoop, hk, hcopy, Option.map_some]; rfl, ?_, ?_, ?_⟩
    · intro id
      rw [hsome]
      by_cases hid : id = d.ctx
      · simp [hid, hk]
      · rw [update_of_ne hid]
    · simp [hlen]
    · intro j e he
      cases j with
      | zero =>
        obtain rfl : d = e := by simpa using he
        exact ⟨k, hk, by rw [List.getElem?_cons_zero, copy_result_lat, Nat.add_zero]⟩
      | succ j =>
        have he' : ds[j]? = some e := by simpa using he
        obtain ⟨k', hk', hget⟩ := hall j e he'
        rw [hctxs e (List.mem_of_getElem? he')] at hk'
        exact ⟨k', hk', by rw [List.getElem?_cons_succ, hget, Nat.add_assoc, Nat.add_comm 1 j]⟩

theorem tells_copied (cnf : Cnf) (realloc : Bool) (lf : Int) (d : WdogDst) (k : BackendCtx) (maxLat : ℚ) :
    wdogTellsMembers cnf (wdogCopyResult realloc lf d k maxLat).1 =
      (cnf.discover && k.result.ready && decide (k.result.state = .ready) &&
        (wdogCopyOthers realloc d.result k.result).1.isSome) := by
  unfold wdogCopyResult wdogTellsMembers
  cases hr : k.result.ready with
  | false => simp [hr]
  | true => cases hs : k.result.state <;> simp [hr, hs]

end copy

section collection

/-- `wdog_collect_results` in front of its last step: what the second loop starts with
and what it ends with. -/
structure Scanned where
  maxLat : ℚ
  start : Collect
  stop : Collect

def scan (cnf : Cnf) (env : CollectEnv) (w : Wdog) : Option Scanned :=
  match copyLoop env cnf.latFactor w.dst 0 w.ctxs 0 with
  | none => none
  | some (dst, ctxs, maxLat) =>
    let c : Collect := ⟨{ w with dst := dst, ctxs := ctxs }, 0, none⟩
    (collectLoop cnf env maxLat dst.length c).map (fun c' => ⟨maxLat, c, c'⟩)

/-- The last step reads the members from the index recorded. -/
theorem collect_results_scan (members : String → List Dst) (cnf : Cnf) (env : CollectEnv) (w : Wdog) :
    wdogCollectResults members cnf env w = (scan cnf env w).bind (fun s =>
      match s.stop.membSource with
      | none => some (s.stop.wdog, s.stop.results)
      | some i => ((s.stop.wdog.dst[i]?).bind (fun d => d.result.others)).map
          (fun memb => (wdogProcessMembershipChange members env s.stop.wdog memb, s.stop.results))) := by
  unfold wdogCollectResults scan
  cases copyLoop env cnf.latFactor w.dst 0 w.ctxs 0 with
  | none => rfl
  | some x =>
    obtain ⟨dst, ctxs, maxLat⟩ := x
    simp only
    cases collectLoop cnf env maxLat dst.length ⟨{ w with dst := dst, ctxs := ctxs }, 0, none⟩ with
    | none => rfl
    | some c =>
      simp only [Option.map_some, Option.bind_some]
      cases c.membSource with
      | none => rfl
      | some i =>
        simp only
        cases (c.wdog.dst[i]?).bind (fun d => d.result.others) <;> rfl

/-- What a scan consists of when every destination has a context of its own. -/
structure Parts (cnf : Cnf) (env : CollectEnv) (w : Wdog) (s : Scanned) : Prop where
  running : Running s.start.wdog.ctxs s.start
  fresh : s.start.membSource = none
  loop : collectLoop cnf env s.maxLat s.start.wdog.dst.length s.start = some s.stop
  joins : ∀ id, hasJoined s.start.wdog.ctxs id = hasJoined w.ctxs id
  length : s.start.wdog.dst.length = w.dst.length
  copied : ∀ j d, w.dst[j]? = some d → ∃ k, w.ctxs d.ctx = some k ∧
    s.start.wdog.dst[j]? = some (wdogCopyResult (env.realloc j) cnf.latFactor d k 0).1

theorem scan_parts (cnf : Cnf) (env : CollectEnv) (ho : OwnContexts w) :
    ∃ s, scan cnf env w = some s ∧ Parts cnf env w s := by
  obtain ⟨ds, ctxs, maxLat, hcopy, hsome, hlen, hall⟩ :=
    copy_loop_all env cnf.latFactor w.dst 0 0 ho.nodup ho.alive
  obtain ⟨hfaces, hjoins⟩ := copy_loop_faces env cnf.latFactor w.dst 0 0 hcopy
  have hctxs : ds.map WdogDst.ctx = w.dst.map WdogDst.ctx :=
    hfaces.map WdogDst.ctx (fun x => x.2.2) (fun _ => rfl)
  have hrun : Running ctxs ⟨{ w with dst := ds, ctxs := ctxs }, 0, none⟩ := by
    refine ⟨⟨hctxs ▸ ho.nodup, ?_⟩, fun _ _ => rfl⟩
    intro d hd
    obtain ⟨e, he, hc⟩ := mem_of_map_eq hctxs hd
    rw [hsome, ← hc]
    exact ho.alive e he
  obtain ⟨c', hloop, _⟩ := collect_loop_swept ds.length hrun (Nat.le_refl _)
  refine ⟨⟨maxLat, ⟨{ w with dst := ds, ctxs := ctxs }, 0, none⟩, c'⟩, ?_, hrun, rfl, hloop, hjoins,
    hlen, ?_⟩
  · simp only [scan, hcopy, hloop, Option.map_some]
  · intro j d hd
    obtain ⟨k, hk, hget⟩ := hall j d hd
    rw [Nat.zero_add] at hget
    exact ⟨k, hk, hget⟩

theorem Parts.swept {s : Scanned} (h : Parts cnf env w s) :
    Swept (joinable env s.start.wdog.ctxs) Renewed s.start.wdog.dst.length s.start.wdog.dst
      s.stop.wdog.dst (updates cnf env s.maxLat s.start.wdog.dst.length s.start) := by
  obtain ⟨c', hloop, hswept⟩ := collect_loop_swept _ h.running (Nat.le_refl _)
  obtain rfl : s.stop = c' := Option.some.inj (h.loop.symm.trans hloop)
  exact hswept

theorem Parts.beyond {s : Scanned} (h : Parts cnf env w s) (hd : w.dst[i]? = none) :
    s.start.wdog.dst[i]? = none := by
  rw [List.getElem?_eq_none_iff] at hd ⊢
  rw [h.length]
  exact hd

theorem Parts.badges {s : Scanned} (h : Parts cnf env w s) :
    s.start.wdog.dst.map badge = w.dst.map badge := by
  apply List.ext_getElem?
  intro j
  rw [List.getElem?_map, List.getElem?_map]
  cases hd : w.dst[j]? with
  | none =>
    rw [h.beyond hd]
  | some d =>
    obtain ⟨k, _, hget⟩ := h.copied j d hd
    have hc := copy_result_copied (env.realloc j) cnf.latFactor d k 0
    rw [hget, Option.map_some, Option.map_some, badge, badge, hc.dst, hc.ctx, hc.explicit]

/-- What stays is what was there with its thread not joinable. -/
theorem Parts.stayed {s : Scanned} (h : Parts cnf env w s) :
    (s.start.wdog.dst.filter (fun d => !joinable env s.start.wdog.ctxs d)).map badge =
      (w.dst.filter (fun d => !joinable env w.ctxs d)).map badge := by
  have split : ∀ (ctxs : CtxId → Option BackendCtx) (l : List WdogDst),
      (l.filter (fun d => !joinable env ctxs d)).map badge =
        (l.map badge).filter (fun b => !(hasJoined ctxs b.2.1 || env.exits b.2.1)) := by
    intro ctxs l
    rw [List.filter_map]
    rfl
  rw [split, split, h.badges]
  simp only [h.joins]

/-- In front of the membership processing, the list holds exactly the destinations
whose thread is not joinable, each once and with its address, weight from the
configuration, context and origin as they were, and the weight update has been run
once for each of them. -/
theorem collects_each_once (cnf : Cnf) (env : CollectEnv) (ho : OwnContexts w) :
    ∃ s, scan cnf env w = some s ∧
      (s.stop.wdog.dst.map badge).Perm
        ((w.dst.filter (fun d => !joinable env w.ctxs d)).map badge) ∧
      ((updates cnf env s.maxLat s.start.wdog.dst.length s.start).map badge).Perm
        ((w.dst.filter (fun d => !joinable env w.ctxs d)).map badge) ∧
      (s.stop.wdog.dst.map badge).Nodup := by
  obtain ⟨s, hs, h⟩ := scan_parts cnf env ho
  have hperm := h.swept.perm badge (fun _ _ => renewed_badge)
  have hlog := h.swept.log_eq
  rw [List.take_length] at hperm hlog
  rw [List.drop_length, List.append_nil, h.stayed] at hperm
  refine ⟨s, hs, hperm, ?_, ?_⟩
  · rw [hlog, ← h.stayed]
    exact (List.reverse_perm _).map badge
  · rw [hperm.nodup_iff]
    have hall : (w.dst.map badge).Nodup := by
      refine List.Nodup.of_map (fun b => b.2.1) ?_
      rw [List.map_map]
      exact ho.nodup
    exact hall.sublist (List.filter_sublist.map badge)

def scanReached (ops : List WdogOp) : Wdog :=
  (exec (wdogStep noMembers discovering) (Wdog.init true) ops).getD (Wdog.init true)

/-- A result that brings a members string. -/
def tellsAt (k : CtxId) : WdogOp := .post k ⟨.ready, 1, some "10.0.0.2:3306", 14, true⟩

def collectAll : CollectEnv :=
  ⟨fun _ => true, fun _ => false, fun _ => ⟨100, 100, true⟩, true, fun _ => started⟩

/-- A's thread has exited, B's and C's go on, and B's has a members string. -/
def firstExits : List WdogOp :=
  [.request started ⟨serverA, 1⟩, .request started ⟨serverB, 1⟩, .request started ⟨serverC, 1⟩,
    tellsAt 1, .exit 0 true]

theorem first_exits_owned : OwnContexts (scanReached firstExits) := ⟨by decide +kernel, by decide +kernel⟩

theorem collects_each_once_first_exits :
    ∃ s, scan discovering collectAll (scanReached firstExits) = some s ∧
      (s.stop.wdog.dst.map badge).Perm [(⟨serverB, 1⟩, 1, true), (⟨serverC, 1⟩, 2, true)] := by
  obtain ⟨s, hs, hperm, _⟩ := collects_each_once discovering collectAll first_exits_owned
  refine ⟨s, hs, ?_⟩
  have hstay : ((scanReached firstExits).dst.filter
      (fun d => !joinable collectAll (scanReached firstExits).ctxs d)).map badge =
      [(⟨serverB, 1⟩, 1, true), (⟨serverC, 1⟩, 2, true)] := by decide +kernel
  rwa [hstay] at hperm

section source

/-- Whether the fresh result of a destination's thread makes the destination a source
for the membership: ready, with a members string and memory for it. -/
def speaks (cnf : Cnf) (env : CollectEnv) (w : Wdog) (i : Nat) (d : WdogDst) : Bool :=
  (w.ctxs d.ctx).any fun k => cnf.discover && k.result.ready && decide (k.result.state = .ready) &&
    (wdogCopyOthers (env.realloc i) d.result k.result).1.isSome

/-- The destinations that may be the source, by index. -/
def maySource (cnf : Cnf) (env : CollectEnv) (w : Wdog) (i : Nat) : Bool :=
  (w.dst[i]?).any fun d => !joinable env w.ctxs d && speaks cnf env w i d

/-- The index that the second loop records: the last of a destination that may be the
source. -/
def IsSource (cnf : Cnf) (env : CollectEnv) (w : Wdog) (s : Nat) : Prop :=
  maySource cnf env w s = true ∧ ∀ j < w.dst.length, s < j → maySource cnf env w j = false

instance (cnf : Cnf) (env : CollectEnv) (w : Wdog) (i : Nat) : Decidable (IsSource cnf env w i) :=
  inferInstanceAs (Decidable (_ ∧ ∀ j < w.dst.length, _ → _))

theorem Parts.offers {s : Scanned} (h : Parts cnf env w s) (j : Nat) :
    (s.start.wdog.dst[j]?).any (offers cnf env s.start.wdog.ctxs) = maySource cnf env w j := by
  unfold maySource
  cases hd : w.dst[j]? with
  | none =>
    rw [h.beyond hd]
    rfl
  | some d =>
    obtain ⟨k, hk, hget⟩ := h.copied j d hd
    have hc := (copy_result_copied (env.realloc j) cnf.latFactor d k 0).ctx
    rw [hget, Option.any_some, Option.any_some, Scan.offers, tells_copied]
    simp [joinable, h.joins, hc, speaks, hk]

theorem Parts.source_iff {s : Scanned} (h : Parts cnf env w s) :
    lastBelow (Scan.offers cnf env s.start.wdog.ctxs) s.start.wdog.dst s.start.wdog.dst.length = some i ↔
      IsSource cnf env w i := by
  rw [last_below_some_iff, h.length, h.offers, IsSource]
  simp only [h.offers]
  refine and_iff_right_of_imp ?_
  rintro ⟨hm, _⟩
  unfold maySource at hm
  cases hd : w.dst[i]? with
  | none => simp [hd] at hm
  | some d => exact (List.getElem?_eq_some_iff.mp hd).1

/-- The entry that the last step reads the members from is the one recorded. -/
def SourceKept (cnf : Cnf) (env : CollectEnv) (w : Wdog) : Prop :=
  ∀ s, scan cnf env w = some s → ∀ i, s.stop.membSource = some i →
    i < s.stop.wdog.dst.length ∧
    ∃ d e, recorded cnf env s.maxLat s.start.wdog.dst.length s.start = some d ∧
      s.stop.wdog.dst[i]? = some e ∧ badge e = badge d ∧
      e.result.state = .ready ∧ e.result.others.isSome = true

/-- The last step finds the entry recorded exactly if its index is less than the number
of destinations that stay. -/
theorem source_kept_iff (cnf : Cnf) (env : CollectEnv) (ho : OwnContexts w) :
    SourceKept cnf env w ↔ ∀ i < w.dst.length, IsSource cnf env w i →
      i < w.dst.countP (fun d => !joinable env w.ctxs d) := by
  obtain ⟨s, hs, h⟩ := scan_parts cnf env ho
  have hsrc := collect_loop_source _ h.running (Nat.le_refl _) h.fresh h.loop
  have hcount : s.stop.wdog.dst.length = w.dst.countP (fun d => !joinable env w.ctxs d) := by
    have hlen := (h.swept.perm badge (fun _ _ => renewed_badge)).length_eq
    rw [List.take_length, List.drop_length, List.append_nil, h.stayed] at hlen
    simpa [List.countP_eq_length_filter] using hlen
  have hroom : ∀ i, i < s.stop.wdog.dst.length ↔
      (s.start.wdog.dst.take s.start.wdog.dst.length).countP (joinable env s.start.wdog.ctxs) + i <
        s.start.wdog.dst.length := by
    intro i
    have := h.swept.length
    omega
  constructor
  · intro hk i _ hi
    have hm : s.stop.membSource = some i := hsrc.source.trans (h.source_iff.mpr hi)
    rw [← hcount]
    exact (hk s hs i hm).1
  · intro hroomy s' hs' i hi
    obtain rfl : s = s' := Option.some.inj (hs.symm.trans hs')
    have hlast := hsrc.source.symm.trans hi
    have his := h.source_iff.mp hlast
    have hlt : i < s.start.wdog.dst.length := (last_below_some_iff.mp hlast).1
    have hstop : i < s.stop.wdog.dst.length := by
      rw [hcount]
      exact hroomy i (h.length ▸ hlt) his
    obtain ⟨d, e, hd, he, hbadge, hresult⟩ := hsrc.stays i hlast ((hroom i).mp hstop)
    have htells := (last_below_some_iff.mp hlast).2.1
    simp only [hd, Option.any_some, Scan.offers, wdogTellsMembers, Bool.and_eq_true,
      decide_eq_true_eq] at htells
    refine ⟨hstop, d, e, ?_, he, hbadge, hresult ▸ htells.2.1.2, hresult ▸ htells.2.2⟩
    rw [hsrc.recorded, hlast]
    exact hd

theorem source_kept_iff_first_exits : SourceKept discovering collectAll (scanReached firstExits) :=
  (source_kept_iff discovering collectAll first_exits_owned).mpr (by decide +kernel)

/-- Only A and B, and A's thread has exited: B moves into A's place while the index
recorded is the one that B had. -/
def onlySecondStays : List WdogOp :=
  [.request started ⟨serverA, 1⟩, .request started ⟨serverB, 1⟩, tellsAt 1, .exit 0 true]

theorem source_lost :
    exec (wdogStep noMembers discovering) (Wdog.init true) onlySecondStays =
        some (scanReached onlySecondStays) ∧
      (scan discovering collectAll (scanReached onlySecondStays)).map
        (fun s => (s.stop.membSource, s.stop.wdog.dst.map wdogAddr)) = some (some 1, [serverB]) ∧
      (wdogCollectResults noMembers discovering collectAll (scanReached onlySecondStays)).isNone = true ∧
      ¬ SourceKept discovering collectAll (scanReached onlySecondStays) := by
  have hscan : (scan discovering collectAll (scanReached onlySecondStays)).map
      (fun s => (s.stop.membSource, s.stop.wdog.dst.map wdogAddr)) = some (some 1, [serverB]) := by
    decide +kernel
  refine ⟨exec_getD _ (by decide +kernel), hscan, by decide +kernel, ?_⟩
  intro hk
  obtain ⟨s, hs, heq⟩ := Option.map_eq_some_iff.mp hscan
  simp only [Prod.mk.injEq] at heq
  have hlt := (hk s hs 1 heq.1).1
  have hlen := congrArg List.length heq.2
  simp only [List.length_map, List.length_singleton] at hlen
  omega

end source

end collection

end Glb.Proofs.Scan
