import Glb.Proofs.Mirror
import Mathlib.Data.List.Forall2

namespace Glb.Proofs.Roster
open Function Lib.Keyed Lib.Run Lib.SwapRemove RouterFrame Mirror

/-- A destination of the watchdog with the flags of its backend thread. -/
structure Post where
  addr : SockAddr
  ctx : CtxId
  weight : ℚ
  explicit : Bool
  quit : Bool
  join : Bool
  deriving DecidableEq

variable {cnf : Cnf} {members : String → List Dst} {w w' : Wdog} {ds ds' : List WdogDst} {i : Nat}
  {d : WdogDst} {ctxs ctxs' : CtxId → Option BackendCtx} {a : SockAddr} {l : List Post} {dst : Dst}
  {explicit : Bool} {p : Post}

def post (ctxs : CtxId → Option BackendCtx) (d : WdogDst) : Post :=
  ⟨d.dst.addr, d.ctx, d.dst.weight, d.explicit, (ctxs d.ctx).any BackendCtx.quit,
    (ctxs d.ctx).any BackendCtx.join⟩

def roster (w : Wdog) : List Post := w.dst.map (post w.ctxs)

/-- No address is listed twice, and every destination has a context of its own, which
is freed when it leaves the list. -/
structure Manned (w : Wdog) : Prop where
  addrs : ((roster w).map Post.addr).Nodup
  ctxs : ((roster w).map Post.ctx).Nodup
  alloc : ∀ id, (w.ctxs id).isSome ↔ id ∈ (roster w).map Post.ctx
  fresh : ∀ id ∈ (roster w).map Post.ctx, id < w.nextCtx

theorem manned_init (pool : Bool) : Manned (Wdog.init pool) :=
  ⟨List.nodup_nil, List.nodup_nil, by simp [Wdog.init, roster], by simp [Wdog.init, roster]⟩

section lists

theorem modify_congr {l : List α} {f g : α → α} (h : ∀ x, l[i]? = some x → f x = g x) :
    l.modify i f = l.modify i g := by
  apply List.ext_getElem?
  intro j
  rw [List.getElem?_modify, List.getElem?_modify]
  cases hx : l[j]? with
  | none => rfl
  | some x =>
    by_cases hj : i = j
    · subst hj
      simp [h x hx]
    · simp [hj]

theorem map_modify_as {l : List α} {f : α → α} {g : α → β} {f' : β → β} (h : ∀ x, g (f x) = f' (g x)) :
    (l.modify i f).map g = (l.map g).modify i f' := by
  apply List.ext_getElem?
  intro j
  rw [List.getElem?_map, List.getElem?_modify, List.getElem?_modify, List.getElem?_map]
  cases l[j]? with
  | none => rfl
  | some x => by_cases hj : i = j <;> simp [hj, h]

theorem roster_get : (roster w)[i]? = (w.dst[i]?).map (post w.ctxs) := List.getElem?_map

theorem ctxs_of_roster (w : Wdog) : (roster w).map Post.ctx = w.dst.map WdogDst.ctx := by
  unfold roster
  rw [List.map_map]
  rfl

theorem Manned.ctx_of (h : Manned w) (hd : d ∈ w.dst) : ∃ c, w.ctxs d.ctx = some c := by
  apply Option.isSome_iff_exists.mp
  rw [h.alloc, ctxs_of_roster]
  exact List.mem_map_of_mem hd

theorem Manned.ctx_inj (h : Manned w) (hd : w.dst[i]? = some d) {j : Nat} {e : WdogDst}
    (he : w.dst[j]? = some e) (hc : e.ctx = d.ctx) : i = j := by
  have hn := h.ctxs
  rw [ctxs_of_roster] at hn
  exact key_inj hn hd he hc

/-- What is written to one context shows in one place. -/
theorem set_ctx_roster (h : Manned w) (hd : w.dst[i]? = some d) (c : BackendCtx) :
    w.dst.map (post (update w.ctxs d.ctx (some c))) =
      (roster w).modify i (fun p => { p with quit := c.quit, join := c.join }) := by
  apply List.ext_getElem?
  intro j
  rw [List.getElem?_modify, roster_get, List.getElem?_map]
  cases he : w.dst[j]? with
  | none => rfl
  | some e =>
    by_cases hj : i = j
    · subst hj
      obtain rfl : d = e := Option.some.inj (hd.symm.trans he)
      simp [post]
    · have hne : e.ctx ≠ d.ctx := fun hc => hj (h.ctx_inj hd he hc)
      simp [hj, post, update_of_ne hne]

/-- Steps that leave the list and the owners of the contexts as they are. -/
theorem Manned.same (h : Manned w) (ha : (roster w').map Post.addr = (roster w).map Post.addr)
    (hc : (roster w').map Post.ctx = (roster w).map Post.ctx)
    (hs : ∀ id, (w'.ctxs id).isSome = (w.ctxs id).isSome) (hn : w.nextCtx ≤ w'.nextCtx) : Manned w' := by
  refine ⟨ha ▸ h.addrs, hc ▸ h.ctxs, ?_, ?_⟩
  · intro id
    rw [hs, hc]
    exact h.alloc id
  · intro id hid
    exact Nat.lt_of_lt_of_le (h.fresh id (hc ▸ hid)) hn

end lists

section change

/-- Whether memory and a backend thread can be had. -/
def startsUp (env : StartEnv) : Bool := env.ctx && env.realloc && env.errn = 0

def changePost (weight : ℚ) (explicit : Bool) (p : Post) : Post :=
  if weight < 0 then (if explicit || !p.explicit then { p with quit := true } else p)
  else if explicit then { p with explicit := true, weight := weight }
  else if !p.explicit then { p with weight := weight }
  else p

theorem change_post_fixed (weight : ℚ) (explicit : Bool) (p : Post) :
    (changePost weight explicit p).addr = p.addr ∧ (changePost weight explicit p).ctx = p.ctx ∧
      (changePost weight explicit p).join = p.join := by
  unfold changePost
  split
  · split <;> exact ⟨rfl, rfl, rfl⟩
  · split
    · exact ⟨rfl, rfl, rfl⟩
    · split <;> exact ⟨rfl, rfl, rfl⟩

/-- What `wdog_change_dst` does to the list, with `id` for the context that it would
make. -/
def changeRoster (start : Bool) (id : CtxId) (l : List Post) (dst : Dst) (explicit : Bool) : List Post :=
  match l.findIdx? (fun p => p.addr = dst.addr) with
  | none =>
    if dst.weight < 0 then l
    else if start then l ++ [⟨dst.addr, id, dst.weight, explicit, false, false⟩] else l
  | some i => l.modify i (changePost dst.weight explicit)

/-- Where an entry of the changed list comes from. -/
theorem change_mem (hp : p ∈ changeRoster start k l dst explicit) :
    p ∈ l ∨ p = ⟨dst.addr, k, dst.weight, explicit, false, false⟩ ∨
      ∃ p' ∈ l, p'.addr = dst.addr ∧ p = changePost dst.weight explicit p' := by
  unfold changeRoster at hp
  split at hp
  · split at hp
    · exact Or.inl hp
    · split at hp
      · rcases List.mem_append.mp hp with hp | hp
        · exact Or.inl hp
        · exact Or.inr (Or.inl (List.mem_singleton.mp hp))
      · exact Or.inl hp
  · rename_i i hi
    obtain ⟨j, hj⟩ := List.mem_iff_getElem?.mp hp
    rw [List.getElem?_modify] at hj
    cases hx : l[j]? with
    | none => simp [hx] at hj
    | some x =>
      by_cases hij : i = j
      · subst hij
        obtain ⟨hlt, hpred, _⟩ := List.findIdx?_eq_some_iff_getElem.mp hi
        have hpa : x.addr = dst.addr := by
          obtain ⟨_, rfl⟩ := List.getElem?_eq_some_iff.mp hx
          simpa using hpred
        exact Or.inr (Or.inr ⟨x, List.mem_of_getElem? hx, hpa, by simpa [hx] using hj.symm⟩)
      · have he : x = p := by simpa [hx, hij] using hj
        exact Or.inl (he ▸ List.mem_of_getElem? hx)

theorem change_listed : a ∈ (changeRoster start k l dst explicit).map Post.addr ↔
    a ∈ l.map Post.addr ∨ (a = dst.addr ∧ ¬ dst.weight < 0 ∧ start = true) := by
  unfold changeRoster
  cases hf : l.findIdx? (fun p => p.addr = dst.addr) with
  | none =>
    by_cases hw : dst.weight < 0
    · simp [hw]
    · cases start <;> simp [hw]
  | some i =>
    obtain ⟨hi, hp, _⟩ := List.findIdx?_eq_some_iff_getElem.mp hf
    have hin : dst.addr ∈ l.map Post.addr :=
      List.mem_map.mpr ⟨l[i], List.getElem_mem hi, by simpa using hp⟩
    simp only
    rw [map_modify _ _ _ _ (fun p => (change_post_fixed dst.weight explicit p).1)]
    exact ⟨Or.inl, fun h => h.elim id (fun h => h.1 ▸ hin)⟩

theorem find_roster (w : Wdog) (dst : Dst) :
    wdogFindDst w dst = (roster w).findIdx? (fun p => p.addr = dst.addr) := by
  unfold wdogFindDst roster
  rw [List.findIdx?_map]
  rfl

theorem refer_post (hw : ¬ weight < 0) (explicit : Bool) (ctxs : CtxId → Option BackendCtx) (d : WdogDst) :
    post ctxs (wdogRefer weight explicit d) = changePost weight explicit (post ctxs d) := by
  unfold wdogRefer changePost
  simp only [hw, ↓reduceIte]
  split
  · rfl
  · have he : (post ctxs d).explicit = d.explicit := rfl
    rw [he]
    split <;> rfl

/-- A new destination gets a new context. -/
theorem hire_roster (h : Manned w) (hf : wdogFindDst w dst = none) (hdst : w'.dst = w.dst ++ [d])
    (hd : d.dst = dst ∧ d.ctx = w.nextCtx ∧ d.explicit = explicit)
    (hctxs : w'.ctxs = update w.ctxs w.nextCtx (some ⟨.zero, false, false⟩)) (hn : w'.nextCtx = w.nextCtx + 1) :
    roster w' = roster w ++ [⟨dst.addr, w.nextCtx, dst.weight, explicit, false, false⟩] ∧ Manned w' := by
  obtain ⟨rfl, hctx, rfl⟩ := hd
  have hid : w.nextCtx ∉ (roster w).map Post.ctx := fun hm => Nat.lt_irrefl _ (h.fresh _ hm)
  have hold : ∀ e ∈ w.dst, e.ctx ≠ w.nextCtx := by
    intro e he hc
    exact hid (hc ▸ ctxs_of_roster w ▸ List.mem_map_of_mem he)
  have hroster : roster w' = roster w ++ [⟨d.dst.addr, w.nextCtx, d.dst.weight, d.explicit, false, false⟩] := by
    unfold roster
    rw [hdst, hctxs, List.map_append]
    congr 1
    · apply List.map_congr_left
      intro e he
      simp [post, update_of_ne (hold e he)]
    · simp [post, hctx]
  have hnew : d.dst.addr ∉ (roster w).map Post.addr := by
    intro hm
    obtain ⟨p, hp, hpa⟩ := List.mem_map.mp hm
    rw [find_roster] at hf
    simpa [hpa] using List.findIdx?_eq_none_iff.mp hf p hp
  refine ⟨hroster, ?_, ?_, ?_, ?_⟩
  · rw [hroster, List.map_append]
    exact List.nodup_append'.mpr ⟨h.addrs, by simp, by simpa using hnew⟩
  · rw [hroster, List.map_append]
    exact List.nodup_append'.mpr ⟨h.ctxs, by simp, by simpa using hid⟩
  · intro id
    rw [hroster, hctxs, List.map_append, List.mem_append]
    by_cases he : id = w.nextCtx
    · subst he
      simp
    · rw [update_of_ne he, h.alloc id]
      simp [he]
  · intro id hm
    rw [hroster, List.map_append, List.mem_append] at hm
    rw [hn]
    rcases hm with hm | hm
    · exact Nat.lt_succ_of_lt (h.fresh id hm)
    · have he : id = w.nextCtx := by simpa using hm
      exact he ▸ Nat.lt_succ_self _

/-- A destination changes in place. -/
theorem change_in_place (h : Manned w)
    (hset : roster w' = (roster w).modify i (changePost dst.weight explicit))
    (hs : ∀ id, (w'.ctxs id).isSome = (w.ctxs id).isSome) (hn : w'.nextCtx = w.nextCtx) : Manned w' := by
  apply h.same _ _ hs (Nat.le_of_eq hn.symm)
  · rw [hset]
    exact map_modify _ _ _ _ (fun p => (change_post_fixed dst.weight explicit p).1)
  · rw [hset]
    exact map_modify _ _ _ _ (fun p => (change_post_fixed dst.weight explicit p).2.1)

theorem quit_roster (h : Manned w) (hd : w.dst[i]? = some d) (hw : dst.weight < 0)
    (hq : (explicit || !d.explicit) = true) :
    roster (w.signalQuit d.ctx) = (roster w).modify i (changePost dst.weight explicit) ∧
      Manned (w.signalQuit d.ctx) := by
  obtain ⟨c, hc⟩ := h.ctx_of (List.mem_of_getElem? hd)
  have hset : roster (w.signalQuit d.ctx) = (roster w).modify i (changePost dst.weight explicit) := by
    unfold roster Wdog.signalQuit
    rw [hc]
    refine (set_ctx_roster h hd { c with quit := true }).trans (modify_congr ?_)
    intro p hp
    rw [roster_get, hd] at hp
    obtain rfl := Option.some.inj hp
    have he : (post w.ctxs d).explicit = d.explicit := rfl
    have hj : (post w.ctxs d).join = c.join := by simp [post, hc]
    simp [changePost, hw, he, hq, hj]
  refine ⟨hset, change_in_place h hset ?_ rfl⟩
  intro id
  by_cases he : id = d.ctx
  · subst he
    simp [Wdog.signalQuit, hc]
  · simp [Wdog.signalQuit, update_of_ne he]

/-- The code follows the list. A call that fails to start a thread may use up a
context. -/
theorem change_roster (h : Manned w) (env : StartEnv) (dst : Dst) (explicit : Bool) :
    roster (wdogChangeDst env w dst explicit).1 =
        changeRoster (startsUp env) w.nextCtx (roster w) dst explicit ∧
      Manned (wdogChangeDst env w dst explicit).1 := by
  unfold wdogChangeDst changeRoster
  rw [← find_roster]
  cases hf : wdogFindDst w dst with
  | none =>
    by_cases hw : dst.weight < 0
    · simp only [hw, ↓reduceIte]
      exact ⟨trivial, h⟩
    · by_cases hm : (!env.ctx || !env.realloc) = true
      · have hup : startsUp env = false := by
          cases h1 : env.ctx <;> cases h2 : env.realloc <;> simp_all [startsUp]
        simp only [hw, hm, hup, ↓reduceIte, Bool.false_eq_true]
        exact ⟨trivial, h⟩
      · have hup : startsUp env = decide (env.errn = 0) := by
          cases h1 : env.ctx <;> cases h2 : env.realloc <;> simp_all [startsUp]
        simp only [hw, hm, hup, ↓reduceIte, Bool.false_eq_true, decide_eq_true_eq]
        split
        · exact hire_roster (d := ⟨.zero, dst, -1, w.nextCtx, 0, explicit⟩) h hf rfl ⟨rfl, rfl, rfl⟩ rfl rfl
        · exact ⟨rfl, h.same rfl rfl (fun _ => rfl) (Nat.le_succ _)⟩
  | some i =>
    obtain ⟨hi, _⟩ := List.findIdx?_eq_some_iff_getElem.mp hf
    have hd : w.dst[i]? = some w.dst[i] := List.getElem?_eq_getElem hi
    generalize w.dst[i] = d at hd
    simp only [hd]
    split
    · rename_i hw
      split
      · rename_i hq
        exact quit_roster h hd hw hq
      · rename_i hq
        refine ⟨?_, h⟩
        rw [modify_congr (g := id), List.modify_id]
        intro p hp
        rw [roster_get, hd] at hp
        obtain rfl := Option.some.inj hp
        have he : (post w.ctxs d).explicit = d.explicit := rfl
        simp [changePost, hw, he, hq]
    · rename_i hw
      have hset : roster { w with dst := w.dst.modify i (wdogRefer dst.weight explicit) } =
          (roster w).modify i (changePost dst.weight explicit) :=
        map_modify_as (fun d => refer_post hw explicit w.ctxs d)
      exact ⟨hset, change_in_place h hset (fun _ => rfl) rfl⟩

theorem membership_manned (start : Nat → StartEnv) (dsts : List Dst) (i : Nat) (h : Manned w) :
    Manned (membershipLoop start dsts i w) := by
  induction dsts generalizing i w with
  | nil => exact h
  | cons dst dsts ih => exact ih (i + 1) (change_roster h (start i) dst false).2

end change

section collect
variable {env : CollectEnv} {c c' : Collect}

/-- The same on the list: only one that is not explicit may be told to quit. -/
def Checked (p p' : Post) : Prop := p' = p ∨ (p.explicit = false ∧ p' = { p with quit := true })

theorem copied_checked (h : Copied d k d' k') (hc : ctxs d.ctx = some k) (hc' : ctxs' d.ctx = some k') :
    Checked (post ctxs d) (post ctxs' d') := by
  unfold Checked post
  simp only [h.dst, h.ctx, h.explicit, hc, hc', Option.any_some, h.join]
  rcases h.quit with hq | ⟨he, hq⟩
  · exact Or.inl (by rw [hq])
  · exact Or.inr ⟨he, by rw [hq]⟩

theorem posts_unchanged (ds : List WdogDst) {k : CtxId} (hk : k ∉ ds.map WdogDst.ctx) (x : Option BackendCtx) :
    ds.map (post (update ctxs k x)) = ds.map (post ctxs) := by
  apply List.map_congr_left
  intro e he
  have hne : e.ctx ≠ k := fun hc => hk (hc ▸ List.mem_map_of_mem he)
  simp [post, update_of_ne hne]

/-- The member lists that the watchdog has for a destination and that its thread has. -/
def lists (ctxs : CtxId → Option BackendCtx) (d : WdogDst) : List String :=
  d.result.others.toList ++ ((ctxs d.ctx).bind fun c => c.result.others).toList

def heard (ds : List WdogDst) (ctxs : CtxId → Option BackendCtx) : List String := ds.flatMap (lists ctxs)

theorem heard_unchanged (ds : List WdogDst) {k : CtxId} (hk : k ∉ ds.map WdogDst.ctx) (x : Option BackendCtx) :
    heard ds (update ctxs k x) = heard ds ctxs := by
  apply List.flatMap_congr
  intro e he
  have hne : e.ctx ≠ k := fun hc => hk (hc ▸ List.mem_map_of_mem he)
  simp [lists, update_of_ne hne]

theorem copy_loop_posts (env : CollectEnv) (lf : Int) (ds : List WdogDst) (i : Nat) (maxLat : ℚ)
    (hn : (ds.map WdogDst.ctx).Nodup)
    (h : copyLoop env lf ds i ctxs maxLat = some (ds', ctxs', m)) :
    List.Forall₂ Checked (ds.map (post ctxs)) (ds'.map (post ctxs')) ∧
      (∀ id, id ∉ ds.map WdogDst.ctx → ctxs' id = ctxs id) ∧
      (∀ id, (ctxs' id).isSome = (ctxs id).isSome) ∧
      ∀ d ∈ ds', ∀ s, d.result.others = some s → s ∈ heard ds ctxs := by
  induction ds generalizing i ctxs maxLat ds' with
  | nil =>
    simp only [copyLoop, Option.some.injEq, Prod.mk.injEq] at h
    obtain ⟨rfl, rfl, _⟩ := h
    exact ⟨.nil, fun _ _ => rfl, fun _ => rfl, by simp⟩
  | cons d ds ih =>
    obtain ⟨ctx, es, hc, rfl, hrest⟩ := copy_cons h
    have hcopied := copy_result_copied (env.realloc i) lf d ctx maxLat
    generalize (wdogCopyResult (env.realloc i) lf d ctx maxLat).2.1 = ctx' at hcopied hrest
    obtain ⟨hnot, hn⟩ := List.nodup_cons.mp hn
    obtain ⟨hposts, hframe, hsome, hothers⟩ := ih _ _ hn hrest
    rw [posts_unchanged ds hnot] at hposts
    have hown : ctxs' d.ctx = some ctx' := by rw [hframe d.ctx hnot, update_self]
    refine ⟨.cons (copied_checked hcopied hc hown) hposts, ?_, ?_, ?_⟩
    · intro id hid
      simp only [List.map_cons, List.mem_cons, not_or] at hid
      rw [hframe id hid.2, update_of_ne hid.1]
    · intro id
      rw [hsome]
      by_cases he : id = d.ctx
      · subst he
        simp [hc]
      · rw [update_of_ne he]
    · intro e he s hs
      unfold heard
      rw [List.flatMap_cons, List.mem_append]
      rcases List.mem_cons.mp he with rfl | he
      · refine Or.inl (List.mem_append.mpr ?_)
        rcases hcopied.others with ho | ho | ho
        · rw [ho] at hs
          cases hs
        · exact Or.inl (Option.mem_toList.mpr (ho.symm.trans hs))
        · exact Or.inr (Option.mem_toList.mpr (by simpa [hc] using ho.symm.trans hs))
      · have htail := hothers e he s hs
        rw [heard_unchanged ds hnot] at htail
        exact Or.inr htail

/-- Whether the second loop takes a destination out. -/
def goesOut (env : CollectEnv) (p : Post) : Bool := p.join || env.exits p.ctx

/-- A destination leaves the list and its context is freed. -/
theorem reap_roster (h : Manned w) (hd : w.dst[i]? = some d) (hdst : w'.dst = swapRemove w.dst i)
    (hctxs : w'.ctxs = update w.ctxs d.ctx none) (hn : w'.nextCtx = w.nextCtx) :
    roster w' = swapRemove (roster w) i ∧ (roster w).Perm (post w.ctxs d :: roster w') ∧ Manned w' := by
  have hget : (roster w)[i]? = some (post w.ctxs d) := by rw [roster_get, hd]; rfl
  have hperm := swapRemove_perm w.dst i d hd
  have hnot : d.ctx ∉ (swapRemove w.dst i).map WdogDst.ctx := by
    have hc := h.ctxs
    rw [ctxs_of_roster] at hc
    exact (List.nodup_cons.mp ((hperm.map WdogDst.ctx).nodup hc)).1
  have hroster : roster w' = swapRemove (roster w) i := by
    unfold roster
    rw [hdst, hctxs, posts_unchanged _ hnot, swapRemove_map]
  have hrperm : (roster w).Perm (post w.ctxs d :: roster w') := hroster ▸ swapRemove_perm _ i _ hget
  have haddrs := List.nodup_cons.mp ((hrperm.map Post.addr).nodup h.addrs)
  have hids := List.nodup_cons.mp ((hrperm.map Post.ctx).nodup h.ctxs)
  have hmem : ∀ id, id ∈ (roster w).map Post.ctx ↔ id = d.ctx ∨ id ∈ (roster w').map Post.ctx := by
    intro id
    rw [(hrperm.map Post.ctx).mem_iff, List.map_cons, List.mem_cons]
    rfl
  refine ⟨hroster, hrperm, haddrs.2, hids.2, ?_, ?_⟩
  · intro id
    rw [hctxs]
    by_cases he : id = d.ctx
    · subst he
      rw [update_self]
      exact ⟨nofun, fun hm => absurd hm hids.1⟩
    · rw [update_of_ne he, h.alloc, hmem]
      simp [he]
  · intro id hid
    rw [hn]
    exact h.fresh id ((hmem id).mpr (Or.inr hid))

/-- What the second loop does at one index. -/
inductive Collects (cnf : Cnf) (env : CollectEnv) (c : Collect) (n : Nat) (d : WdogDst) (c' : Collect) : Prop
  | reaped (hg : goesOut env (post c.wdog.ctxs d) = true) (hdst : c'.wdog.dst = swapRemove c.wdog.dst n)
    (hctxs : c'.wdog.ctxs = update c.wdog.ctxs d.ctx none) (hn : c'.wdog.nextCtx = c.wdog.nextCtx)
    (hs : c'.membSource = c.membSource)
  | kept (hg : goesOut env (post c.wdog.ctxs d) = false) (hctxs : c'.wdog.ctxs = c.wdog.ctxs)
    (hn : c'.wdog.nextCtx = c.wdog.nextCtx) (hr : roster c'.wdog = roster c.wdog)
    (ho : c'.wdog.dst.map (fun d => d.result.others) = c.wdog.dst.map (fun d => d.result.others))
    (hs : c'.membSource = c.membSource ∨ cnf.discover = true)

theorem hold_frame (d : WdogDst) :
    (∀ ctxs, post ctxs (wdogHold d) = post ctxs d) ∧ (wdogHold d).result.others = d.result.others := by
  unfold wdogHold
  split
  · exact ⟨fun _ => rfl, rfl⟩
  · simp only
    split <;> split <;> exact ⟨fun _ => rfl, rfl⟩

theorem collect_one_cases (h : collectOne cnf env maxLat c n = some c') :
    ∃ d, c.wdog.dst[n]? = some d ∧ Collects cnf env c n d c' := by
  obtain ⟨d, hd, hv⟩ := visit_cases h
  refine ⟨d, hd, ?_⟩
  cases hv with
  | reaped hj => exact .reaped hj rfl rfl rfl rfl
  | kept results membSource hj hs =>
    obtain ⟨hctxs, hn, hr⟩ := update_router_frame cnf (env.change n)
      { c.wdog with dst := c.wdog.dst.modify n wdogHold } n (wdogHold d) (wdogNewWeight cnf maxLat d)
      (post c.wdog.ctxs) (fun _ _ => rfl)
    obtain ⟨_, _, ho⟩ := update_router_frame cnf (env.change n)
      { c.wdog with dst := c.wdog.dst.modify n wdogHold } n (wdogHold d) (wdogNewWeight cnf maxLat d)
      (fun d => d.result.others) (fun _ _ => rfl)
    refine .kept hj hctxs hn ?_ ?_ hs
    · unfold roster
      rw [hctxs, hr]
      exact map_modify _ _ _ _ (fun d => (hold_frame d).1 _)
    · rw [ho]
      exact map_modify _ _ _ _ (fun d => (hold_frame d).2)

/-- The second loop takes out what is gone among the first `n`, and nothing else. -/
theorem collect_loop_posts (n : Nat) (hm : Manned c.wdog) (h : collectLoop cnf env maxLat n c = some c') :
    Manned c'.wdog ∧
      (∀ p, p ∈ roster c'.wdog ↔
        p ∈ roster c.wdog ∧ (p ∈ (roster c.wdog).take n → goesOut env p = false)) ∧
      (∀ d ∈ c'.wdog.dst, ∃ e ∈ c.wdog.dst, e.result.others = d.result.others) ∧
      (c'.membSource = c.membSource ∨ cnf.discover = true) := by
  induction n generalizing c with
  | zero =>
    simp only [collectLoop, Option.some.injEq] at h
    subst h
    exact ⟨hm, by simp, fun d hd => ⟨d, hd, rfl⟩, Or.inl rfl⟩
  | succ n ih =>
    simp only [collectLoop, Option.bind_eq_some_iff] at h
    obtain ⟨b, hone, hrest⟩ := h
    obtain ⟨d, hd, hcase⟩ := collect_one_cases hone
    have hget : (roster c.wdog)[n]? = some (post c.wdog.ctxs d) := by rw [roster_get, hd]; rfl
    have htake : (roster c.wdog).take (n + 1) = (roster c.wdog).take n ++ [post c.wdog.ctxs d] := by
      rw [List.take_add_one, hget]
      rfl
    cases hcase with
    | reaped hg hdst hctxs hn hs =>
      obtain ⟨hr, hperm, hmb⟩ := reap_roster hm hd hdst hctxs hn
      obtain ⟨hm', hmem, hothers, hsrc⟩ := ih hmb hrest
      obtain ⟨hlt, _⟩ := List.getElem?_eq_some_iff.mp hget
      have hnot : post c.wdog.ctxs d ∉ roster b.wdog :=
        (List.nodup_cons.mp (hperm.nodup (List.Nodup.of_map Post.addr hm.addrs))).1
      refine ⟨hm', ?_, ?_, hs ▸ hsrc⟩
      · intro p
        rw [hmem, hperm.mem_iff, List.mem_cons, htake, List.mem_append, List.mem_singleton, hr,
          swapRemove_take _ _ hlt, ← hr]
        constructor
        · rintro ⟨hp, hrest⟩
          refine ⟨Or.inr hp, ?_⟩
          rintro (hp' | rfl)
          · exact hrest hp'
          · exact absurd hp hnot
        · rintro ⟨hp, hrest⟩
          have hne : p ≠ post c.wdog.ctxs d := by
            rintro rfl
            have hfalse := hrest (Or.inr rfl)
            rw [hg] at hfalse
            cases hfalse
          exact ⟨hp.resolve_left hne, fun hp' => hrest (Or.inl hp')⟩
      · intro e he
        obtain ⟨f, hf, hfe⟩ := hothers e he
        rw [hdst] at hf
        exact ⟨f, mem_of_mem_swapRemove hf, hfe⟩
    | kept hg hctxs hn hr ho hs =>
      have hmb : Manned b.wdog := by
        apply hm.same (by rw [hr]) (by rw [hr]) _ (Nat.le_of_eq hn.symm)
        intro id
        rw [hctxs]
      obtain ⟨hm', hmem, hothers, hsrc⟩ := ih hmb hrest
      refine ⟨hm', ?_, ?_, ?_⟩
      · intro p
        rw [hmem, hr, htake, List.mem_append, List.mem_singleton]
        constructor
        · rintro ⟨hp, hrest⟩
          refine ⟨hp, ?_⟩
          rintro (hp' | rfl)
          · exact hrest hp'
          · exact hg
        · rintro ⟨hp, hrest⟩
          exact ⟨hp, fun hp' => hrest (Or.inl hp')⟩
      · intro e he
        obtain ⟨f, hf, hfe⟩ := hothers e he
        obtain ⟨g, hg, hgf⟩ := mem_of_map_eq ho hf
        exact ⟨g, hg, hgf.trans hfe⟩
      · rcases hsrc with hsrc | hsrc
        · exact hs.imp_left hsrc.trans
        · exact Or.inr hsrc

/-- What a collection does to the list: some are told to quit, those whose thread is
gone leave, and what a member list names is referred to. -/
theorem collect_posts (hm : Manned w) (h : wdogCollectResults members cnf env w = some (w', n)) :
    ∃ l v, List.Forall₂ Checked (roster w) l ∧ Manned v ∧ (∀ p, p ∈ roster v ↔ p ∈ l ∧ goesOut env p = false) ∧
      (w' = v ∨ ∃ s ∈ heard w.dst w.ctxs, cnf.discover = true ∧
        w' = membershipLoop env.start (members s) 0 v) := by
  obtain ⟨ds, ctxs, maxLat, c, hcopy, hloop, hw'⟩ := collect_cases h
  have hn := hm.ctxs
  rw [ctxs_of_roster] at hn
  obtain ⟨hposts, _, hsome, hheard⟩ := copy_loop_posts env cnf.latFactor w.dst 0 0 hn hcopy
  have hfixed : ∀ {l l'}, List.Forall₂ Checked l l' →
      l'.map Post.addr = l.map Post.addr ∧ l'.map Post.ctx = l.map Post.ctx := by
    intro l l' hl
    induction hl with
    | nil => exact ⟨rfl, rfl⟩
    | cons hp _ ih =>
      rcases hp with rfl | ⟨_, rfl⟩ <;> simp [ih]
  have hcopied : Manned { w with dst := ds, ctxs := ctxs } :=
    hm.same (hfixed hposts).1 (hfixed hposts).2 hsome (Nat.le_refl _)
  obtain ⟨hmc, hmem, hothers, hsrc⟩ := collect_loop_posts ds.length hcopied hloop
  have hlen : (roster { w with dst := ds, ctxs := ctxs }).take ds.length = ds.map (post ctxs) := by
    unfold roster
    rw [List.take_of_length_le (by simp)]
  refine ⟨ds.map (post ctxs), c.wdog, hposts, hmc, ?_, ?_⟩
  · intro p
    rw [hmem, hlen]
    constructor
    · rintro ⟨hp, hg⟩
      exact ⟨hp, hg hp⟩
    · rintro ⟨hp, hg⟩
      exact ⟨hp, fun _ => hg⟩
  · rcases hw' with rfl | ⟨i, d, s, hs, hd, hds, rfl⟩
    · exact Or.inl rfl
    · obtain ⟨e, he, hes⟩ := hothers d (List.mem_of_getElem? hd)
      refine Or.inr ⟨s, hheard e he s (hes.trans hds), hsrc.resolve_left ?_, rfl⟩
      simp [hs]

end collect

theorem on_ctx_posts (hm : Manned w) (h : w.onCtx k f = some w') :
    Manned w' ∧ ∃ i d c, w.dst[i]? = some d ∧ d.ctx = k ∧ w.ctxs k = some c ∧
      roster w' = (roster w).modify i (fun p => { p with quit := (f c).quit, join := (f c).join }) := by
  unfold Wdog.onCtx at h
  split at h
  · cases h
  · rename_i c hc
    split at h
    · cases h
    · obtain rfl := Option.some.inj h
      have hown : k ∈ w.dst.map WdogDst.ctx := by
        rw [← ctxs_of_roster, ← hm.alloc, hc]
        rfl
      obtain ⟨d, hd, rfl⟩ := List.mem_map.mp hown
      obtain ⟨i, hi⟩ := List.mem_iff_getElem?.mp hd
      have hset := set_ctx_roster hm hi (f c)
      refine ⟨?_, i, d, c, hi, rfl, hc, hset⟩
      refine hm.same ?_ ?_ ?_ (Nat.le_refl _)
      · exact (congrArg (List.map Post.addr) hset).trans (map_modify _ _ _ _ (fun _ => rfl))
      · exact (congrArg (List.map Post.ctx) hset).trans (map_modify _ _ _ _ (fun _ => rfl))
      · intro id
        by_cases he : id = d.ctx
        · subst he
          simp [hc]
        · simp [update_of_ne he]

theorem step_manned (hm : Manned w) (h : wdogStep members cnf w op = some w') : Manned w' := by
  have hsame : ∀ r, Manned { w with router := r } :=
    fun r => hm.same rfl rfl (fun _ => rfl) (Nat.le_refl _)
  cases op with
  | request env dst =>
    simp only [wdogStep, Option.some.injEq] at h
    exact h ▸ (change_roster hm env dst true).2
  | post k res => exact (on_ctx_posts hm h).1
  | exit k clears => exact (on_ctx_posts hm h).1
  | collect env =>
    obtain ⟨⟨v, n⟩, hv, rfl⟩ := Option.map_eq_some_iff.mp h
    obtain ⟨l, u, _, hu, _, rfl | ⟨s, _, _, rfl⟩⟩ := collect_posts hm hv
    · exact hu
    · exact membership_manned _ _ _ hu
  | choose env hint =>
    simp only [wdogStep, Option.some.injEq] at h
    exact h ▸ hsame _
  | disconnect now a failed =>
    simp only [wdogStep, Option.some.injEq] at h
    exact h ▸ hsame _
  | chooseAgain now env hint a =>
    simp only [wdogStep, Option.some.injEq] at h
    exact h ▸ hsame _

end Glb.Proofs.Roster
