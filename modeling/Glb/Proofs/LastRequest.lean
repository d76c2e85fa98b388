import Glb.Proofs.Roster

namespace Glb.Proofs.LastRequest
open Function Lib.Run Roster RouterTable RouterRun Mirror

variable {cnf : Cnf} {members : String → List Dst} {w w' : Wdog} {a : SockAddr} {q : ℚ} {l l' : List Post}
  {dst : Dst} {p : Post} {op : WdogOp}

/-- An address that the operator wants and that nobody is about to take out. -/
def StaysListed (l : List Post) (a : SockAddr) (q : ℚ) : Prop :=
  ∃ p ∈ l, p.addr = a ∧ p.weight = q ∧ p.explicit = true ∧ p.quit = false ∧ p.join = false

/-- The thread of an explicit destination exits only after its quit flag is set, and a
destination with a set flag is not asked for again. -/
def StayOk (w : Wdog) : WdogOp → Prop
  | .request env dst =>
    0 ≤ env.errn ∧ (0 ≤ dst.weight → ∀ p ∈ roster w, p.addr = dst.addr → p.quit = false ∧ p.join = false)
  | .exit id _ => ∀ p ∈ roster w, p.ctx = id → p.explicit = true → p.quit = true
  | .collect env => ∀ p ∈ roster w, env.exits p.ctx = true → p.explicit = true → p.quit = true
  | _ => True

instance (w : Wdog) : (op : WdogOp) → Decidable (StayOk w op)
  | .request env dst => inferInstanceAs (Decidable (0 ≤ env.errn ∧
      (0 ≤ dst.weight → ∀ p ∈ roster w, p.addr = dst.addr → p.quit = false ∧ p.join = false)))
  | .exit id _ => inferInstanceAs (Decidable (∀ p ∈ roster w, p.ctx = id → p.explicit = true → p.quit = true))
  | .collect env => inferInstanceAs (Decidable (∀ p ∈ roster w, env.exits p.ctx = true →
      p.explicit = true → p.quit = true))
  | .post _ _ | .choose _ _ | .disconnect _ _ _ | .chooseAgain _ _ _ _ => .isTrue trivial

section posts

/-- A change of other addresses, or one that discovery asks for, is none here. -/
theorem change_kept (hk : StaysListed l a q) (start : Bool) (id : CtxId) (dst : Dst) (explicit : Bool)
    (ho : explicit = false ∨ dst.addr ≠ a) : StaysListed (changeRoster start id l dst explicit) a q := by
  obtain ⟨p, hp, ha, hq, he, hf⟩ := hk
  unfold changeRoster
  split
  · split
    · exact ⟨p, hp, ha, hq, he, hf⟩
    · split
      · exact ⟨p, List.mem_append_left _ hp, ha, hq, he, hf⟩
      · exact ⟨p, hp, ha, hq, he, hf⟩
  · rename_i i hi
    obtain ⟨j, hj⟩ := List.mem_iff_getElem?.mp hp
    have hsame : (l.modify i (changePost dst.weight explicit))[j]? = some p := by
      rw [List.getElem?_modify, hj]
      by_cases hij : i = j
      · subst hij
        -- the entry itself, so the change comes from discovery
        obtain ⟨hlt, hpred, _⟩ := List.findIdx?_eq_some_iff_getElem.mp hi
        have hpa : p.addr = dst.addr := by
          obtain ⟨_, rfl⟩ := List.getElem?_eq_some_iff.mp hj
          simpa using hpred
        obtain rfl := ho.resolve_right (fun hne => hne (hpa.symm.trans ha))
        simp [changePost, he]
      · simp [hij]
    exact ⟨p, List.mem_of_getElem? hsame, ha, hq, he, hf⟩

theorem membership_kept (start : Nat → StartEnv) (dsts : List Dst) (i : Nat) (hm : Manned w)
    (hk : StaysListed (roster w) a q) : StaysListed (roster (membershipLoop start dsts i w)) a q := by
  induction dsts generalizing i w with
  | nil => exact hk
  | cons dst dsts ih =>
    obtain ⟨hr, hm'⟩ := change_roster hm (start i) dst false
    exact ih (i + 1) hm' (hr ▸ change_kept hk _ _ _ _ (Or.inl rfl))

/-- An accepted request for an address that is not about to leave. -/
theorem request_kept (env : StartEnv) (hm : Manned w) (hok : StayOk w (.request env dst))
    (hw : 0 ≤ dst.weight) (hc : 0 ≤ (wdogChangeDst env w dst true).2) :
    StaysListed (roster (wdogChangeDst env w dst true).1) dst.addr dst.weight := by
  have hneg : ¬ dst.weight < 0 := not_lt.mpr hw
  rw [(change_roster hm env dst true).1]
  unfold changeRoster
  cases hf : (roster w).findIdx? (fun p => p.addr = dst.addr) with
  | none =>
    have hup : startsUp env = true := by
      unfold wdogChangeDst at hc
      rw [find_roster, hf] at hc
      simp only [hneg, ↓reduceIte] at hc
      split at hc
      · simp [ENOMEM] at hc
      · rename_i hmem
        split at hc
        · rename_i hz
          simp only [Bool.or_eq_true, Bool.not_eq_true', not_or, Bool.not_eq_false] at hmem
          simp [startsUp, hmem, hz]
        · rename_i hz
          have := hok.1
          simp only at hc
          omega
    simp only [hneg, hup, ↓reduceIte]
    exact ⟨_, List.mem_append_right _ (List.mem_singleton_self _), rfl, rfl, rfl, rfl, rfl⟩
  | some i =>
    obtain ⟨hi, hpred, _⟩ := List.findIdx?_eq_some_iff_getElem.mp hf
    have hget : (roster w)[i]? = some (roster w)[i] := List.getElem?_eq_getElem hi
    have ha : (roster w)[i].addr = dst.addr := by simpa using hpred
    obtain ⟨hq, hj⟩ := hok.2 hw _ (List.getElem_mem hi) ha
    have hset : ((roster w).modify i (changePost dst.weight true))[i]? =
        some { (roster w)[i] with explicit := true, weight := dst.weight } := by
      simp [hget, changePost, hneg]
    exact ⟨_, List.mem_of_getElem? hset, ha, rfl, rfl, hq, hj⟩

theorem paired_mem {R : α → β → Prop} {l : List α} {l' : List β} {x : α} (h : List.Forall₂ R l l')
    (hx : x ∈ l) : ∃ y ∈ l', R x y := by
  induction h with
  | nil => cases hx
  | cons hc _ ih =>
    rcases List.mem_cons.mp hx with rfl | hx
    · exact ⟨_, List.mem_cons_self, hc⟩
    · obtain ⟨y, hy, hc'⟩ := ih hx
      exact ⟨y, List.mem_cons_of_mem _ hy, hc'⟩

theorem collect_kept (hm : Manned w) (hok : StayOk w (.collect env)) (hk : StaysListed (roster w) a q)
    (h : wdogCollectResults members cnf env w = some (w', n)) : StaysListed (roster w') a q := by
  obtain ⟨l, v, hl, hv, hmem, hw'⟩ := collect_posts hm h
  have hkv : StaysListed (roster v) a q := by
    obtain ⟨p, hp, ha, hq, he, hquit, hj⟩ := hk
    obtain ⟨p', hp', hc⟩ := paired_mem hl hp
    obtain rfl : p' = p := hc.resolve_right (fun h => by simp [he] at h)
    refine ⟨p', (hmem p').mpr ⟨hp', ?_⟩, ha, hq, he, hquit, hj⟩
    cases hx : env.exits p'.ctx with
    | false => simp [goesOut, hj, hx]
    | true =>
      have hquit' := hok p' hp hx he
      rw [hquit] at hquit'
      cases hquit'
  rcases hw' with rfl | ⟨s, _, _, rfl⟩
  · exact hkv
  · exact membership_kept _ _ _ hv hkv

theorem step_stays (hm : Manned w) (hok : StayOk w op) (hk : StaysListed (roster w) a q)
    (hop : ∀ env dst, op = .request env dst → dst.addr ≠ a)
    (h : wdogStep members cnf w op = some w') : StaysListed (roster w') a q := by
  cases op with
  | request env dst =>
    simp only [wdogStep, Option.some.injEq] at h
    rw [← h, (change_roster hm env dst true).1]
    exact change_kept hk _ _ _ _ (Or.inr (hop env dst rfl))
  | post k res =>
    obtain ⟨_, i, d, c, hd, rfl, hc, hr⟩ := on_ctx_posts hm h
    obtain ⟨p, hp, hpost⟩ := hk
    rw [hr, modify_congr (g := id), List.modify_id]
    · exact ⟨p, hp, hpost⟩
    · intro p hp
      rw [roster_get, hd] at hp
      obtain rfl := Option.some.inj hp
      simp [post, hc]
  | exit k clears =>
    obtain ⟨_, i, d, c, hd, rfl, hc, hr⟩ := on_ctx_posts hm h
    obtain ⟨p, hp, ha, hq, he, hquit, hj⟩ := hk
    have hne : p.ctx ≠ d.ctx := by
      intro hpd
      have hquit' := hok p hp hpd he
      rw [hquit] at hquit'
      cases hquit'
    obtain ⟨j, hpj⟩ := List.mem_iff_getElem?.mp hp
    have hij : i ≠ j := by
      rintro rfl
      rw [roster_get, hd] at hpj
      obtain rfl := Option.some.inj hpj
      exact hne rfl
    refine ⟨p, List.mem_of_getElem? (i := j) ?_, ha, hq, he, hquit, hj⟩
    rw [hr, List.getElem?_modify, hpj]
    simp [hij]
  | collect env =>
    obtain ⟨⟨v, n⟩, hv, rfl⟩ := Option.map_eq_some_iff.mp h
    exact collect_kept hm hok hk hv
  | choose env hint =>
    simp only [wdogStep, Option.some.injEq] at h
    exact h ▸ hk
  | disconnect now b failed =>
    simp only [wdogStep, Option.some.injEq] at h
    exact h ▸ hk
  | chooseAgain now env hint b =>
    simp only [wdogStep, Option.some.injEq] at h
    exact h ▸ hk

/-- Discovery does not list an address that it names with negative weights only. -/
theorem membership_unlisted (start : Nat → StartEnv) (dsts : List Dst) (i : Nat) (hm : Manned w)
    (hd : ∀ dst ∈ dsts, dst.addr = a → dst.weight < 0) (ha : a ∉ (roster w).map Post.addr) :
    a ∉ (roster (membershipLoop start dsts i w)).map Post.addr := by
  induction dsts generalizing i w with
  | nil => exact ha
  | cons dst dsts ih =>
    obtain ⟨hr, hm'⟩ := change_roster hm (start i) dst false
    refine ih (i + 1) hm' (fun x hx => hd x (List.mem_cons_of_mem _ hx)) ?_
    rw [hr, change_listed]
    rintro (h | ⟨rfl, hw, _⟩)
    · exact ha h
    · exact hw (hd dst List.mem_cons_self rfl)

theorem Manned.post_inj (hm : Manned w) (hp : p ∈ roster w) (hp' : p' ∈ roster w) (ha : p.addr = p'.addr) :
    p = p' := List.inj_on_of_nodup_map hm.addrs hp hp' ha

/-- A collection takes out a destination whose thread has exited, and discovery does
not bring it back. -/
theorem collect_gone (hm : Manned w) (hp : p ∈ roster w) (hj : p.join = true)
    (hmem : cnf.discover = true → ∀ s ∈ heard w.dst w.ctxs, ∀ dst ∈ members s, dst.addr = p.addr →
      dst.weight < 0)
    (h : wdogCollectResults members cnf env w = some (w', n)) : p.addr ∉ (roster w').map Post.addr := by
  obtain ⟨l, v, hl, hv, hiff, hw'⟩ := collect_posts hm h
  have hout : p.addr ∉ (roster v).map Post.addr := by
    intro hin
    obtain ⟨x, hx, hxa⟩ := List.mem_map.mp hin
    obtain ⟨hxl, hg⟩ := (hiff x).mp hx
    obtain ⟨y, hy, hc⟩ := paired_mem (List.Forall₂.flip (R := flip Checked) hl) hxl
    have hya : x.addr = y.addr ∧ x.join = y.join := by
      rcases hc with rfl | ⟨_, rfl⟩ <;> exact ⟨rfl, rfl⟩
    obtain rfl := Manned.post_inj hm hy hp (hya.1.symm.trans hxa)
    simp [goesOut, hya.2, hj] at hg
  rcases hw' with rfl | ⟨s, hs, hdisc, rfl⟩
  · exact hout
  · exact membership_unlisted _ _ _ hv (hmem hdisc s hs) hout

end posts

section asked

/-- The request that a step makes and that is answered with a code that is not
negative. -/
def acceptedDst (w : Wdog) : WdogOp → Option Dst
  | .request env dst => if 0 ≤ (wdogChangeDst env w dst true).2 then some dst else none
  | _ => none

/-- The watchdog together with the weight in the last accepted request for each
address. -/
def askStep (members : String → List Dst) (cnf : Cnf) (x : Wdog × (SockAddr → Option ℚ)) (op : WdogOp) :
    Option (Wdog × (SockAddr → Option ℚ)) :=
  (wdogStep members cnf x.1 op).map fun w =>
    (w, ((acceptedDst x.1 op).map fun dst => update x.2 dst.addr (some dst.weight)).getD x.2)

/-- No member list names an address whose removal was requested last. -/
def MembersOk (members : String → List Dst) (cnf : Cnf) (x : Wdog × (SockAddr → Option ℚ)) : Prop :=
  cnf.discover = true → ∀ s ∈ heard x.1.dst x.1.ctxs, ∀ dst ∈ members s, 0 ≤ dst.weight →
    (x.2 dst.addr).all (fun q => 0 ≤ q) = true

/-- A request for a listed address is never refused. -/
theorem listed_accepted (env : StartEnv) (hp : p ∈ roster w) (ha : p.addr = dst.addr) :
    0 ≤ (wdogChangeDst env w dst true).2 := by
  unfold wdogChangeDst
  cases hf : wdogFindDst w dst with
  | none =>
    rw [find_roster] at hf
    simpa [ha] using List.findIdx?_eq_none_iff.mp hf p hp
  | some i =>
    simp only
    split
    · exact Int.natCast_nonneg i
    · split <;> exact Int.natCast_nonneg i

def RequestsKept (x : Wdog × (SockAddr → Option ℚ)) : Prop :=
  Manned x.1 ∧ ∀ a q, x.2 a = some q → 0 ≤ q → StaysListed (roster x.1) a q

theorem asked_step (hx : RequestsKept x) (hok : StayOk x.1 op) (h : askStep members cnf x op = some x') :
    RequestsKept x' := by
  obtain ⟨w, last⟩ := x
  obtain ⟨w', hs, rfl⟩ := Option.map_eq_some_iff.mp h
  obtain ⟨hm, hk⟩ := hx
  simp only at hm hk hok hs ⊢
  refine ⟨step_manned hm hs, ?_⟩
  have keep : ∀ a q, last a = some q → 0 ≤ q → (∀ env dst, op = .request env dst → dst.addr ≠ a) →
      StaysListed (roster w') a q := fun a q hl hq hop => step_stays hm hok (hk a q hl hq) hop hs
  intro a q hl hq
  cases op with
  | request env dst =>
    have hw' : (wdogChangeDst env w dst true).1 = w' := Option.some.inj hs
    by_cases hc : 0 ≤ (wdogChangeDst env w dst true).2
    · simp only [acceptedDst, hc, ↓reduceIte, Option.map_some, Option.getD_some] at hl
      by_cases ha : a = dst.addr
      · subst ha
        rw [update_self, Option.some.injEq] at hl
        subst hl
        exact hw' ▸ request_kept env hm hok hq hc
      · rw [update_of_ne ha] at hl
        exact keep a q hl hq (fun _ _ he => by cases he; exact fun h => ha h.symm)
    · simp only [acceptedDst, hc, ↓reduceIte, Option.map_none, Option.getD_none] at hl
      -- a refused request is for an address that is not listed
      refine keep a q hl hq ?_
      rintro _ _ ⟨⟩ rfl
      obtain ⟨p, hp, hpa, _⟩ := hk _ _ hl hq
      exact hc (listed_accepted env hp hpa)
  | _ => exact keep a q hl hq (fun _ _ he => by cases he)

end asked

/-- In every run in which no doomed destination is asked for, an address that was last
asked for is listed with the weight of that request. One that was last asked to be
removed is gone after the next collection once its thread has exited, unless a member
list names it. -/
theorem last_request_wins
    (h : exec (askStep members cnf) (Wdog.init pool, fun _ => none) ops = some (w, last))
    (ha : Along (askStep members cnf) (fun x op => StayOk x.1 op) (Wdog.init pool, fun _ => none) ops) :
    (∀ a q, last a = some q → 0 ≤ q → ∃ d ∈ w.dst, d.dst.addr = a ∧ d.dst.weight = q) ∧
    ∀ a q, last a = some q → q < 0 → ∀ d ∈ w.dst, d.dst.addr = a → hasJoined w.ctxs d.ctx = true →
      ∀ env w' n, MembersOk members cnf (w, last) →
        wdogCollectResults members cnf env w = some (w', n) → ∀ d' ∈ w'.dst, d'.dst.addr ≠ a := by
  have hinit : RequestsKept (Wdog.init pool, fun _ => none) := ⟨manned_init pool, by simp⟩
  obtain ⟨hm, hk⟩ : RequestsKept (w, last) := exec_keeps (fun _ _ _ => asked_step) hinit ha h
  refine ⟨?_, ?_⟩
  · intro a q hl hq
    obtain ⟨p, hp, rfl, rfl, _⟩ := hk a q hl hq
    obtain ⟨d, hd, rfl⟩ := List.mem_map.mp hp
    exact ⟨d, hd, rfl, rfl⟩
  · rintro _ q hl hq d hd rfl hj env w' n hmem hrun d' hd' he
    have hp : post w.ctxs d ∈ roster w := List.mem_map_of_mem hd
    refine collect_gone hm hp hj ?_ hrun (List.mem_map.mpr ⟨_, List.mem_map_of_mem hd', he⟩)
    intro hdisc s hs dst hdst hda
    by_contra hneg
    have hall : (last dst.addr).all (fun q => 0 ≤ q) = true := hmem hdisc s hs dst hdst (not_lt.mp hneg)
    rw [show dst.addr = d.dst.addr from hda, hl, Option.all_some, decide_eq_true_eq] at hall
    exact absurd hq (not_lt.mpr hall)

/-- Every member list names A. -/
def membersA (_ : String) : List Dst := [⟨serverA, 1⟩]

def nothingAsked (_ : SockAddr) : Option ℚ := none

def askReached (ops : List WdogOp) : Wdog × (SockAddr → Option ℚ) :=
  (exec (askStep membersA discovering) (Wdog.init true, nothingAsked) ops).getD
    (Wdog.init true, nothingAsked)

/-- A and B are asked for, A again with another weight, and B is asked to be removed. -/
def askAB : List WdogOp :=
  [.request started ⟨serverA, 1⟩, .request started ⟨serverB, 1⟩, .request started ⟨serverA, 2⟩,
    .request started ⟨serverB, -1⟩, .exit 1 true]

theorem last_request_wins_ask_a_b :
    (∃ d ∈ (askReached askAB).1.dst, d.dst.addr = serverA ∧ d.dst.weight = 2) ∧
    ∀ env w' n, wdogCollectResults membersA discovering env (askReached askAB).1 = some (w', n) →
      ∀ d ∈ w'.dst, d.dst.addr ≠ serverB := by
  have hrun : exec (askStep membersA discovering) (Wdog.init true, nothingAsked) askAB =
      some ((askReached askAB).1, (askReached askAB).2) :=
    exec_getD (Wdog.init true, nothingAsked) (by decide +kernel)
  obtain ⟨hkept, hgone⟩ := last_request_wins hrun (by decide +kernel)
  refine ⟨hkept serverA 2 (by decide +kernel) (by decide), ?_⟩
  intro env w' n hcollect
  have hmem : MembersOk membersA discovering ((askReached askAB).1, (askReached askAB).2) := by
    intro _ s hs
    have hnone : heard (askReached askAB).1.dst (askReached askAB).1.ctxs = [] := by decide +kernel
    rw [hnone] at hs
    cases hs
  have hb : ∃ d ∈ (askReached askAB).1.dst, d.dst.addr = serverB ∧
      hasJoined (askReached askAB).1.ctxs d.ctx = true := by decide +kernel
  obtain ⟨d, hd, ha, hj⟩ := hb
  exact hgone serverB (-1) (by decide +kernel) (by decide) d hd ha hj env w' n hmem hcollect

/-- Whether a backend thread exits only after its quit flag is set. -/
def exitsQuit (w : Wdog) : WdogOp → Bool
  | .exit id _ => (w.ctxs id).any BackendCtx.quit
  | .collect env => w.dst.all (fun d => !env.exits d.ctx)
  | _ => true

/-- A is asked for again before its thread has seen that it should quit. -/
def askAgain : List WdogOp :=
  [.request started ⟨serverA, 1⟩, .request started ⟨serverA, -1⟩, .request started ⟨serverA, 2⟩,
    .exit 0 true, collectAt 100]

/-- A is removed while B says that it is a member. -/
def askGone : List WdogOp :=
  [.request started ⟨serverB, 1⟩, .request started ⟨serverA, 1⟩, .request started ⟨serverA, -1⟩,
    .exit 1 true, .post 0 ⟨.ready, 1, some "10.0.0.1:3306", 14, true⟩]

/-- The request for A was accepted and A is gone, and A is listed again by the
collection that should have removed it. -/
theorem request_lost_ask_again :
    (Along (askStep membersA discovering) (fun x op => exitsQuit x.1 op = true)
        (Wdog.init true, nothingAsked) askAgain ∧
      (askReached askAgain).2 serverA = some 2 ∧ (askReached askAgain).1.dst = []) ∧
    Along (askStep membersA discovering) (fun x op => exitsQuit x.1 op = true)
        (Wdog.init true, nothingAsked) (askGone ++ [collectAt 100]) ∧
      (askReached askGone).1.dst.map (fun d => (d.dst.addr, hasJoined (askReached askGone).1.ctxs d.ctx)) =
        [(serverB, false), (serverA, true)] ∧
      (askReached (askGone ++ [collectAt 100])).2 serverA = some (-1) ∧
      (askReached (askGone ++ [collectAt 100])).1.dst.map (fun d => d.dst.addr) = [serverB, serverA] := by
  refine ⟨⟨?_, ?_, ?_⟩, ?_, ?_, ?_, ?_⟩
  all_goals decide +kernel

section explicit

/-- The watchdog together with the addresses that the last request for them asked to be
removed. -/
def namedStep (members : String → List Dst) (cnf : Cnf) (x : Wdog × (SockAddr → Bool)) (op : WdogOp) :
    Option (Wdog × (SockAddr → Bool)) :=
  (wdogStep members cnf x.1 op).map fun w =>
    match op with
    | .request _ dst => (w, update x.2 dst.addr (dst.weight < 0))
    | _ => (w, x.2)

/-- Discovery makes nothing explicit. -/
theorem membership_explicit (start : Nat → StartEnv) (dsts : List Dst) (i : Nat) (hm : Manned w)
    (hp : p ∈ roster (membershipLoop start dsts i w)) (he : p.explicit = true) :
    ∃ p' ∈ roster w, p'.addr = p.addr ∧ p'.explicit = true := by
  induction dsts generalizing i w with
  | nil => exact ⟨p, hp, rfl, he⟩
  | cons dst dsts ih =>
    obtain ⟨hr, hm'⟩ := change_roster hm (start i) dst false
    obtain ⟨x, hx, hxa, hxe⟩ := ih (i + 1) hm' hp
    rw [hr] at hx
    rcases change_mem hx with hx | rfl | ⟨y, hy, _, rfl⟩
    · exact ⟨x, hx, hxa, hxe⟩
    · cases hxe
    · refine ⟨y, hy, (change_post_fixed _ _ y).1.symm.trans hxa, ?_⟩
      by_contra hne
      have hfalse : y.explicit = false := by simpa using hne
      unfold changePost at hxe
      simp only [hfalse, Bool.not_false, Bool.or_true, ↓reduceIte, Bool.false_eq_true] at hxe
      split at hxe <;> cases hxe

/-- What is explicit after a step was so before, unless the step is a request for it. -/
theorem step_explicit (hm : Manned w) (h : wdogStep members cnf w op = some w') (hp : p ∈ roster w')
    (he : p.explicit = true) (hop : ∀ env dst, op = .request env dst → dst.addr ≠ p.addr) :
    ∃ p' ∈ roster w, p'.addr = p.addr ∧ p'.explicit = true := by
  have hctx : ∀ {k f}, w.onCtx k f = some w' → ∃ p' ∈ roster w, p'.addr = p.addr ∧ p'.explicit = true := by
    intro k f h
    obtain ⟨_, i, d, c, _, _, _, hr⟩ := on_ctx_posts hm h
    rw [hr] at hp
    obtain ⟨j, hj⟩ := List.mem_iff_getElem?.mp hp
    rw [List.getElem?_modify] at hj
    obtain ⟨x, hx, rfl⟩ := Option.map_eq_some_iff.mp hj
    refine ⟨x, List.mem_of_getElem? hx, ?_⟩
    split at he <;> split <;> simp_all
  cases op with
  | request env dst =>
    simp only [wdogStep, Option.some.injEq] at h
    rw [← h, (change_roster hm env dst true).1] at hp
    have hne := hop env dst rfl
    rcases change_mem hp with hp | rfl | ⟨y, hy, hya, rfl⟩
    · exact ⟨p, hp, rfl, he⟩
    · exact absurd rfl hne
    · exact absurd (hya.symm.trans (change_post_fixed _ _ y).1.symm) hne
  | post k res => exact hctx h
  | exit k clears => exact hctx h
  | collect env =>
    obtain ⟨⟨v, n⟩, hv, rfl⟩ := Option.map_eq_some_iff.mp h
    obtain ⟨l, u, hl, hu, hiff, hw'⟩ := collect_posts hm hv
    obtain ⟨x, hx, hxa, hxe⟩ : ∃ x ∈ roster u, x.addr = p.addr ∧ x.explicit = true := by
      rcases hw' with rfl | ⟨s, _, _, rfl⟩
      · exact ⟨p, hp, rfl, he⟩
      · exact membership_explicit _ _ _ hu hp he
    obtain ⟨y, hy, hc⟩ := paired_mem (List.Forall₂.flip (R := flip Checked) hl) ((hiff x).mp hx).1
    rcases hc with rfl | ⟨hne, rfl⟩
    · exact ⟨x, hy, hxa, hxe⟩
    · exact ⟨y, hy, hxa, hxe⟩
  | choose env hint =>
    simp only [wdogStep, Option.some.injEq] at h
    subst h
    exact ⟨p, hp, rfl, he⟩
  | disconnect now b failed =>
    simp only [wdogStep, Option.some.injEq] at h
    subst h
    exact ⟨p, hp, rfl, he⟩
  | chooseAgain now env hint b =>
    simp only [wdogStep, Option.some.injEq] at h
    subst h
    exact ⟨p, hp, rfl, he⟩

/-- After a request with a weight that is not negative no flag is set. -/
theorem request_flags (env : StartEnv) (hm : Manned w) (hok : StayOk w (.request env dst))
    (hw : ¬ dst.weight < 0) (hp : p ∈ roster (wdogChangeDst env w dst true).1) (ha : p.addr = dst.addr) :
    p.quit = false ∧ p.join = false := by
  rw [(change_roster hm env dst true).1] at hp
  have hclear := hok.2 (not_lt.mp hw)
  rcases change_mem hp with hp | rfl | ⟨y, hy, hya, rfl⟩
  · exact hclear p hp ha
  · exact ⟨rfl, rfl⟩
  · simpa [changePost, hw] using hclear y hy hya

/-- The explicit destinations that no request has named since are not about to leave. -/
def Named (x : Wdog × (SockAddr → Bool)) : Prop :=
  Manned x.1 ∧ ∀ p ∈ roster x.1, p.explicit = true → x.2 p.addr = false → p.quit = false ∧ p.join = false

theorem named_step (hx : Named x) (hok : StayOk x.1 op) (h : namedStep members cnf x op = some x') :
    Named x' := by
  obtain ⟨w, named⟩ := x
  obtain ⟨w', hs, rfl⟩ := Option.map_eq_some_iff.mp h
  obtain ⟨hm, hk⟩ := hx
  simp only at hm hk hok hs
  have hm' := step_manned hm hs
  -- an explicit destination that the step does not name comes from one with clear flags
  have keep : ∀ p ∈ roster w', p.explicit = true → named p.addr = false →
      (∀ env dst, op = .request env dst → dst.addr ≠ p.addr) → p.quit = false ∧ p.join = false := by
    intro p hp he hn hop
    obtain ⟨x, hx, hxa, hxe⟩ := step_explicit hm hs hp he hop
    obtain ⟨hq, hj⟩ := hk x hx hxe (hxa ▸ hn)
    obtain ⟨y, hy, hya, _, _, hyq, hyj⟩ := step_stays hm hok ⟨x, hx, hxa, rfl, hxe, hq, hj⟩ hop hs
    obtain rfl := Manned.post_inj hm' hy hp hya
    exact ⟨hyq, hyj⟩
  cases op with
  | request env dst =>
    refine ⟨hm', ?_⟩
    intro p hp he hn
    have hw' : (wdogChangeDst env w dst true).1 = w' := Option.some.inj hs
    by_cases ha : p.addr = dst.addr
    · simp only [ha, update_self, decide_eq_false_iff_not] at hn
      exact request_flags env hm hok hn (hw' ▸ hp) ha
    · simp only [update_of_ne ha] at hn
      exact keep p hp he hn (fun _ _ h => by cases h; exact fun h => ha h.symm)
  | _ => exact ⟨hm', fun p hp he hn => keep p hp he hn (fun _ _ h => by cases h)⟩

/-- A destination that no request asks to remove. -/
theorem kept_step (hm : Manned w) (hok : StayOk w op) (hk : ∃ q, StaysListed (roster w) a q)
    (hop : ∀ env q, op = .request env ⟨a, q⟩ → 0 ≤ q) (h : wdogStep members cnf w op = some w') :
    ∃ q, StaysListed (roster w') a q := by
  obtain ⟨q, hk⟩ := hk
  by_cases hreq : ∀ env dst, op = .request env dst → dst.addr ≠ a
  · exact ⟨q, step_stays hm hok hk hreq h⟩
  · simp only [not_forall, not_not] at hreq
    obtain ⟨env, dst, rfl, rfl⟩ := hreq
    simp only [wdogStep, Option.some.injEq] at h
    refine ⟨dst.weight, h ▸ request_kept env hm hok (hop env dst.weight rfl) ?_⟩
    obtain ⟨p, hp, hpa, _⟩ := hk
    exact listed_accepted env hp hpa

end explicit

/-- In every run in which threads of explicit destinations exit only when told to and
no doomed destination is asked for, an explicit destination that no request asks to
remove stays in the list. -/
theorem explicit_stays
    (h : exec (namedStep members cnf) (Wdog.init pool, fun _ => false) ops = some (w, named))
    (ha : Along (namedStep members cnf) (fun x op => StayOk x.1 op) (Wdog.init pool, fun _ => false) ops)
    (hd : d ∈ w.dst) (he : d.explicit = true) (hn : named d.dst.addr = false)
    (h' : exec (wdogStep members cnf) w later = some w') (ha' : Along (wdogStep members cnf) StayOk w later)
    (hl : ∀ op ∈ later, ∀ env q, op = .request env ⟨d.dst.addr, q⟩ → 0 ≤ q) :
    ∃ d' ∈ w'.dst, d'.dst.addr = d.dst.addr ∧ d'.explicit = true := by
  have hinit : Named (Wdog.init pool, fun _ => false) := ⟨manned_init pool, by simp [roster, Wdog.init]⟩
  obtain ⟨hm, hk⟩ : Named (w, named) := exec_keeps (fun _ _ _ => named_step) hinit ha h
  have hp : post w.ctxs d ∈ roster w := List.mem_map_of_mem hd
  obtain ⟨hq, hj⟩ := hk _ hp he hn
  have hkept : ∃ q, StaysListed (roster w) d.dst.addr q := ⟨d.dst.weight, _, hp, rfl, rfl, he, hq, hj⟩
  let inv : Wdog → Prop := fun v => Manned v ∧ ∃ q, StaysListed (roster v) d.dst.addr q
  have hstep : ∀ v op v', inv v → (StayOk v op ∧ ∀ env q, op = .request env ⟨d.dst.addr, q⟩ → 0 ≤ q) →
      wdogStep members cnf v op = some v' → inv v' :=
    fun v op v' hi hok hs => ⟨step_manned hi.1 hs, kept_step hi.1 hok.1 hi.2 hok.2 hs⟩
  obtain ⟨_, q, p, hp', hpa, _, hpe, _⟩ : inv w' :=
    exec_keeps hstep ⟨hm, hkept⟩ (along_labels ha' hl) h'
  obtain ⟨d', hd', rfl⟩ := List.mem_map.mp hp'
  exact ⟨d', hd', hpa, hpe⟩

/-- Every member list asks for A to be removed. -/
def disownA (_ : String) : List Dst := [⟨serverA, -1⟩]

def nothingNamed (_ : SockAddr) : Bool := false

def askA : List WdogOp := [.request started ⟨serverA, 1⟩]

/-- A itself reports such a list. -/
def disown : List WdogOp := [.post 0 ⟨.ready, 1, some "10.0.0.1:3306:-1", 17, true⟩, collectAt 100]

def askedA : Wdog × (SockAddr → Bool) :=
  (exec (namedStep disownA discovering) (Wdog.init true, nothingNamed) askA).getD (Wdog.init true, nothingNamed)

def disowned : Wdog := (exec (wdogStep disownA discovering) askedA.1 disown).getD askedA.1

theorem explicit_stays_disown : ∃ d ∈ disowned.dst, d.dst.addr = serverA ∧ d.explicit = true := by
  have hrun : exec (namedStep disownA discovering) (Wdog.init true, nothingNamed) askA =
      some (askedA.1, askedA.2) := exec_getD (Wdog.init true, nothingNamed) (by decide +kernel)
  have hlater : exec (wdogStep disownA discovering) askedA.1 disown = some disowned :=
    exec_getD askedA.1 (by decide +kernel)
  have hlisted : ∃ d ∈ askedA.1.dst, d.dst.addr = serverA ∧ d.explicit = true := by decide +kernel
  obtain ⟨d, hd, ha, he⟩ := hlisted
  obtain ⟨d', hd', ha', he'⟩ := explicit_stays hrun (by decide +kernel) hd he (by rw [ha]; decide +kernel)
    hlater (by decide +kernel) (by simp [disown, collectAt])
  exact ⟨d', hd', ha'.trans ha, he'⟩

/-- The check script of A fails, nobody asks for anything, and A is gone. -/
theorem explicit_lost_script_error :
    (∃ d ∈ askedA.1.dst, d.dst.addr = serverA ∧ d.explicit = true) ∧
    ∃ w, exec (wdogStep disownA discovering) askedA.1 [.exit 0 true, collectAt 100] = some w ∧ w.dst = [] := by
  refine ⟨by decide +kernel, _, exec_getD askedA.1 (by decide +kernel), ?_⟩
  decide +kernel

end Glb.Proofs.LastRequest
