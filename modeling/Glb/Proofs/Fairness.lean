import Glb.Lib.Wheel
import Glb.Proofs.TopDst
import Mathlib.Data.Finset.Card

namespace Glb.Proofs.Fairness
open RouterFrame RouterRun TopDst Lib.Run Lib.Wheel

variable {cnf : Cnf} {r r' : Router} {d e : RouterDst} {i j : Nat} {c : ChooseEnv × UInt32}
  {calls : List (ChooseEnv × UInt32)} {G : Finset Nat}

/-- One call of `router_choose_dst` in a row of such calls. -/
def chooseStep (cnf : Cnf) (r : Router) (c : ChooseEnv × UInt32) : Option Router :=
  some (routerChooseDst cnf c.1 r c.2).1

/-- What the calls return. -/
def choices (cnf : Cnf) : Router → List (ChooseEnv × UInt32) → List (Option Nat)
  | _, [] => []
  | r, c :: cs => (routerChooseDst cnf c.1 r c.2).2 :: choices cnf (routerChooseDst cnf c.1 r c.2).1 cs

section least

def AllGood (cnf : Cnf) (r : Router) (c : ChooseEnv × UInt32) : Prop :=
  ∀ d ∈ r.dst, goodAt cnf c.1.now r d = true

instance (cnf : Cnf) (r : Router) (c : ChooseEnv × UInt32) : Decidable (AllGood cnf r c) :=
  inferInstanceAs (Decidable (∀ d ∈ r.dst, _))

/-- The least-loaded policy on a table of good destinations counts a connection where
the quotient is largest. -/
theorem choose_least (hp : cnf.policy = .least) (he : cnf.extra = 0) (hg : AllGood cnf r c) :
    (routerChooseDst cnf c.1 r c.2).1.dst = r.dst ∨
      ∃ i d, r.dst[i]? = some d ∧ (∀ e ∈ r.dst, e.usage ≤ d.usage) ∧
        (routerChooseDst cnf c.1 r c.2).1.dst = (r.count i 1).dst := by
  obtain ⟨hdst, _⟩ := prepare_dst cnf c.1.now r
  have hpol : routerPolicy cnf c.1 (routerPrepare cnf c.1.now r) c.2 =
      (routerPrepare cnf c.1.now r, (leastLoop (routerPrepare cnf c.1.now r).ctx
        (routerPrepare cnf c.1.now r).dst 0 (none, 0)).1) := by
    rw [routerPolicy, hp]
    exact least_eq he
  rw [choose_eq hpol]
  cases hl : (leastLoop (routerPrepare cnf c.1.now r).ctx
      (routerPrepare cnf c.1.now r).dst 0 (none, 0)).1 with
  | none => exact Or.inl hdst
  | some i =>
    obtain ⟨d, hd, _, hmax⟩ := least_loop_some hl
    rw [hdst] at hd hmax
    refine Or.inr ⟨i, d, hd, ?_, by simp only [tookOne, Router.count, hdst]⟩
    intro e hm
    exact hmax e hm (by rw [good_prepared]; exact hg e hm)

/-- No destination is ahead of its share by more than one connection: the pairwise
bound, with what a step needs of the counts and the cached quotients. -/
structure EvenShare (r : Router) : Prop where
  usage : ∀ d ∈ r.dst, d.usage = routerDstUsage d
  weight : ∀ d ∈ r.dst, 0 < d.dst.weight
  conns : ∀ d ∈ r.dst, 0 ≤ d.conns
  pairs : ∀ d ∈ r.dst, ∀ e ∈ r.dst, (d.conns : ℚ) * e.dst.weight ≤ (e.conns + 1) * d.dst.weight

theorem EvenShare.table (h : EvenShare r) (hd : r'.dst = r.dst) : EvenShare r' := by
  refine ⟨?_, ?_, ?_, ?_⟩ <;> rw [hd]
  · exact h.usage
  · exact h.weight
  · exact h.conns
  · exact h.pairs

/-- The destination with the largest quotient can take one more connection. -/
theorem share_of_usage (hd : 0 ≤ d.conns) (he : 0 ≤ e.conns)
    (h : routerDstUsage e ≤ routerDstUsage d) :
    ((d.conns + 1 : Int) : ℚ) * e.dst.weight ≤ (e.conns + 1) * d.dst.weight := by
  have hd' : (0 : ℚ) < ((d.conns + 1 : Int) : ℚ) := by exact_mod_cast Int.lt_add_one_of_le hd
  have he' : (0 : ℚ) < ((e.conns + 1 : Int) : ℚ) := by exact_mod_cast Int.lt_add_one_of_le he
  rw [routerDstUsage, routerDstUsage, div_le_div_iff₀ he' hd'] at h
  push_cast at h ⊢
  linarith

/-- A destination with one more connection. -/
def oneMore (d : RouterDst) : RouterDst :=
  let d := { d with conns := d.conns + 1 }
  { d with usage := routerDstUsage d }

theorem mem_taken (h : e ∈ r.dst.modify i oneMore) (hd : r.dst[i]? = some d) : e ∈ r.dst ∨ e = oneMore d := by
  obtain ⟨j, hj⟩ := List.mem_iff_getElem?.mp h
  rw [List.getElem?_modify] at hj
  by_cases hij : i = j
  · subst hij
    simp only [hd, ↓reduceIte, Option.map_eq_map, Option.map_some, Option.some.injEq] at hj
    exact Or.inr hj.symm
  · simp only [hij, ↓reduceIte, Option.map_eq_map, Option.map_id_fun', id_eq] at hj
    exact Or.inl (List.mem_of_getElem? hj)

theorem EvenShare.count (h : EvenShare r) (hd : r.dst[i]? = some d)
    (hmax : ∀ e ∈ r.dst, e.usage ≤ d.usage) : EvenShare (r.count i 1) := by
  have hmem := List.mem_of_getElem? hd
  have hrest : ∀ e ∈ (r.count i 1).dst, e ∈ r.dst ∨ e = oneMore d := fun e he => mem_taken he hd
  have hw := h.weight d hmem
  have hc := h.conns d hmem
  have htaken : ((oneMore d).conns : ℚ) = d.conns + 1 := by simp [oneMore]
  have ahead : ∀ e ∈ r.dst, ((oneMore d).conns : ℚ) * e.dst.weight ≤ (e.conns + 1) * d.dst.weight := by
    intro e he
    have hu := hmax e he
    rw [h.usage e he, h.usage d hmem] at hu
    exact share_of_usage hc (h.conns e he) hu
  refine ⟨?_, ?_, ?_, ?_⟩
  · intro e he
    rcases hrest e he with he | rfl
    · exact h.usage e he
    · rfl
  · intro e he
    rcases hrest e he with he | rfl
    · exact h.weight e he
    · exact hw
  · intro e he
    rcases hrest e he with he | rfl
    · exact h.conns e he
    · exact Int.add_nonneg hc (by decide)
  · intro a ha b hb
    rcases hrest a ha with ha | rfl <;> rcases hrest b hb with hb | rfl
    · exact h.pairs a ha b hb
    · -- only the right side has grown
      have hle := h.pairs a ha d hmem
      have hwa := h.weight a ha
      rw [htaken]
      change (a.conns : ℚ) * d.dst.weight ≤ (d.conns + 1 + 1) * a.dst.weight
      linarith
    · exact ahead b hb
    · rw [htaken]
      change ((d.conns : ℚ) + 1) * d.dst.weight ≤ (d.conns + 1 + 1) * d.dst.weight
      linarith

theorem step_even (hp : cnf.policy = .least) (he : cnf.extra = 0) :
    ∀ r c r', EvenShare r → AllGood cnf r c → chooseStep cnf r c = some r' → EvenShare r' := by
  intro r c r' h hg hs
  simp only [chooseStep, Option.some.injEq] at hs
  subst hs
  rcases choose_least hp he hg with hq | ⟨i, d, hd, hmax, hq⟩
  · exact h.table hq
  · exact (h.count hd hmax).table hq

/-- From a table without connections, calls of the least-loaded policy that find every
destination good keep the connections of any two in proportion to their weights, up
to one. -/
theorem least_balanced (hp : cnf.policy = .least) (he : cnf.extra = 0)
    (hz : ∀ d ∈ r.dst, d.conns = 0) (hu : ∀ d ∈ r.dst, d.usage = routerDstUsage d)
    (hw : ∀ d ∈ r.dst, 0 < d.dst.weight) (ha : Along (chooseStep cnf) (AllGood cnf) r calls)
    (h : exec (chooseStep cnf) r calls = some r') :
    ∀ d ∈ r'.dst, ∀ e ∈ r'.dst, (d.conns : ℚ) * e.dst.weight ≤ (e.conns + 1) * d.dst.weight := by
  have hinit : EvenShare r := by
    refine ⟨hu, hw, fun d hd => le_of_eq (hz d hd).symm, ?_⟩
    intro d hd e he
    rw [hz d hd, hz e he]
    simpa using le_of_lt (hw d hd)
  exact (exec_keeps (step_even hp he) hinit ha h).pairs

def balancing (policy : Policy) : Cnf where
  policy := policy
  top := false
  interval := 10 ^ 9
  extra := 0
  maxConn := 0
  synchronous := false
  discover := false
  latFactor := 8

/-- Two servers, the second with twice the weight of the first. -/
def oneToTwo : Router :=
  { Router.init with
    dst := [routerNewDst ⟨serverA, 1⟩ none 0, routerNewDst ⟨serverB, 2⟩ none 0] }

def fourCalls : List (ChooseEnv × UInt32) := List.replicate 4 (chooseAt 100, 0)

def afterFour : Router := (exec (chooseStep (balancing .least)) oneToTwo fourCalls).getD oneToTwo

theorem least_balanced_one_to_two :
    afterFour.dst.map RouterDst.conns = [1, 3] ∧
      ∀ d ∈ afterFour.dst, ∀ e ∈ afterFour.dst,
        (d.conns : ℚ) * e.dst.weight ≤ (e.conns + 1) * d.dst.weight := by
  refine ⟨by decide +kernel, ?_⟩
  have ha : Along (chooseStep (balancing .least)) (AllGood (balancing .least)) oneToTwo fourCalls := by
    decide +kernel
  exact least_balanced rfl rfl (by decide +kernel) (by decide +kernel) (by decide +kernel) ha rfl

end least

section round

/-- The set of destinations that a call finds good, by index. -/
def GoodSet (cnf : Cnf) (G : Finset Nat) (r : Router) (c : ChooseEnv × UInt32) : Prop :=
  ∀ i < r.dst.length, ∀ d ∈ r.dst[i]?, goodAt cnf c.1.now r d = true ↔ i ∈ G

instance (cnf : Cnf) (G : Finset Nat) (r : Router) (c : ChooseEnv × UInt32) :
    Decidable (GoodSet cnf G r c) :=
  inferInstanceAs (Decidable (∀ i < r.dst.length, ∀ d ∈ r.dst[i]?, _ ↔ _))

/-- The loop of the policy is a turn of the wheel that moves the cursor only. -/
theorem round_loop_serve (he : cnf.extra = 0) (p : Nat → Bool) (n : Nat) (r : Router)
    (hc : r.rrbNext < r.dst.length)
    (hp : ∀ i d, r.dst[i]? = some d →
      routerDstIsGood d r.ctx.minWeight r.ctx.now r.ctx.retry = p i) :
    ∃ k < r.dst.length, (roundLoop cnf env n r).1 = { r with rrbNext := k } ∧
      (wheel r.dst.length k, (roundLoop cnf env n r).2) =
        serve p n (wheel r.dst.length r.rrbNext) := by
  induction n generalizing r with
  | zero => exact ⟨r.rrbNext, hc, rfl, rfl⟩
  | succ n ih =>
    obtain ⟨t, hw, hnext⟩ := wheel_turn hc
    have hlt : (r.rrbNext + 1) % r.dst.length < r.dst.length := Nat.mod_lt _ (by omega)
    have hd : r.dst[r.rrbNext]? = some r.dst[r.rrbNext] := List.getElem?_eq_getElem hc
    have hgood := hp _ _ hd
    rw [hw, serve]
    simp only [roundLoop, hd, hgood]
    cases hpc : p r.rrbNext with
    | true =>
      have hk : Router.checkAt cnf env { r with rrbNext := (r.rrbNext + 1) % r.dst.length } r.rrbNext =
          (_, true) := check_at he hd
      simp only [↓reduceIte, hk]
      exact ⟨_, hlt, rfl, by rw [hnext]⟩
    | false =>
      obtain ⟨k, hk, hr, hs⟩ := ih { r with rrbNext := (r.rrbNext + 1) % r.dst.length } hlt hp
      simp only [Bool.false_eq_true, ↓reduceIte]
      rw [← hnext]
      exact ⟨k, hk, hr, hs⟩

/-- A call of the round-robin policy turns the wheel of the destinations it finds
good. -/
theorem choose_serve (hp : cnf.policy = .round) (he : cnf.extra = 0)
    (hc : r.rrbNext < r.dst.length) (hg : GoodSet cnf G r c) :
    ∃ r' ret, routerChooseDst cnf c.1 r c.2 = (r', ret) ∧ r'.dst.length = r.dst.length ∧
      r'.rrbNext < r.dst.length ∧
      (wheel r.dst.length r'.rrbNext, ret) =
        serve (fun i => decide (i ∈ G)) r.dst.length (wheel r.dst.length r.rrbNext) := by
  obtain ⟨hdst, _⟩ := prepare_dst cnf c.1.now r
  have hnext : (routerPrepare cnf c.1.now r).rrbNext = r.rrbNext := by
    rcases prepare_cases cnf c.1.now r with ⟨_, _, hq⟩ | ⟨_, hq⟩ <;> rw [hq] <;> rfl
  have hgood : ∀ i d, (routerPrepare cnf c.1.now r).dst[i]? = some d →
      routerDstIsGood d (routerPrepare cnf c.1.now r).ctx.minWeight
        (routerPrepare cnf c.1.now r).ctx.now (routerPrepare cnf c.1.now r).ctx.retry =
          decide (i ∈ G) := by
    intro i d hd
    rw [hdst] at hd
    rw [good_prepared]
    have hi : i < r.dst.length := (List.getElem?_eq_some_iff.mp hd).1
    rw [Bool.eq_iff_iff, decide_eq_true_eq]
    exact hg i hi d hd
  obtain ⟨k, hk, hr, hs⟩ := round_loop_serve he _ (routerPrepare cnf c.1.now r).dst.length
    (routerPrepare cnf c.1.now r) (by rw [hdst, hnext]; exact hc) hgood
  rw [hdst, hnext] at hs
  rw [hdst] at hk
  have hpol : routerPolicy cnf c.1 (routerPrepare cnf c.1.now r) c.2 =
      ({ routerPrepare cnf c.1.now r with rrbNext := k },
        (roundLoop cnf c.1 r.dst.length (routerPrepare cnf c.1.now r)).2) := by
    rw [routerPolicy, hp]
    refine Prod.ext hr ?_
    simp only [routerChooseDstRound, hdst]
  refine ⟨_, _, choose_eq hpol, ?_, ?_, ?_⟩
  all_goals generalize (roundLoop cnf c.1 r.dst.length (routerPrepare cnf c.1.now r)).2 = ret at hs ⊢
  · cases ret <;> simp [tookOne, Router.count, hdst]
  · cases ret <;> exact hk
  · rw [← hs]
    cases ret <;> rfl

/-- A row of calls that find the same destinations good serves the wheel. -/
theorem choices_served (hp : cnf.policy = .round) (he : cnf.extra = 0)
    (hc : r.rrbNext < r.dst.length) (ha : Along (chooseStep cnf) (GoodSet cnf G) r calls) :
    choices cnf r calls =
      served (fun i => decide (i ∈ G)) calls.length (wheel r.dst.length r.rrbNext) := by
  induction calls generalizing r with
  | nil => rfl
  | cons c calls ih =>
    obtain ⟨r', ret, hr, hlen, hc', hs⟩ := choose_serve hp he hc ha.1
    have hstep : chooseStep cnf r c = some r' := by rw [chooseStep, hr]
    rw [choices, List.length_cons, served, length_wheel, ← hs, hr]
    have hrest := ih (hlen ▸ hc') (ha.2 r' hstep)
    rw [hlen] at hrest
    rw [hrest]

/-- With nothing good the cursor comes back to where it was. -/
theorem cursor_back (hp : cnf.policy = .round) (he : cnf.extra = 0)
    (hc : r.rrbNext < r.dst.length) (hg : GoodSet cnf ∅ r c) :
    (routerChooseDst cnf c.1 r c.2).2 = none ∧
      (routerChooseDst cnf c.1 r c.2).1.rrbNext = r.rrbNext := by
  obtain ⟨r', ret, hr, _, hc', hs⟩ := choose_serve hp he hc hg
  have hnone := serve_none (p := fun i => decide (i ∈ (∅ : Finset Nat)))
    (wheel r.dst.length r.rrbNext) [] (by simp)
  rw [length_wheel, List.append_nil, List.nil_append] at hnone
  rw [hnone, Prod.mk.injEq] at hs
  rw [hr]
  refine ⟨hs.2, ?_⟩
  obtain ⟨t, hw, _⟩ := wheel_turn hc
  obtain ⟨t', hw', _⟩ := wheel_turn hc'
  have hheads := hs.1
  rw [hw, hw'] at hheads
  exact (List.cons.inj hheads).1

theorem card_wheel (hG : ∀ i ∈ G, i < n) (k : Nat) :
    ((wheel n k).filter (fun i => decide (i ∈ G))).length = G.card := by
  have hnd : ((wheel n k).filter (fun i => decide (i ∈ G))).Nodup := (nodup_wheel n k).filter _
  rw [← List.toFinset_card_of_nodup hnd]
  congr 1
  ext i
  simp only [List.mem_toFinset, List.mem_filter, mem_wheel, decide_eq_true_eq, and_iff_right_iff_imp]
  exact hG i

/-- As many calls of the round-robin policy as there are good destinations return each
of them once, in cyclic order from the cursor on. Where none is good the call returns
none and the cursor is back where it was. -/
theorem round_robin_fair (hp : cnf.policy = .round) (he : cnf.extra = 0)
    (hc : r.rrbNext < r.dst.length) (hG : ∀ i ∈ G, i < r.dst.length)
    (ha : Along (chooseStep cnf) (GoodSet cnf G) r calls) :
    (calls.length = G.card →
      choices cnf r calls =
        (((List.range r.dst.length).rotate r.rrbNext).filter (fun i => decide (i ∈ G))).map some ∧
      ∀ i ∈ G, (choices cnf r calls).count (some i) = 1) ∧
    (∀ c, GoodSet cnf ∅ r c → (routerChooseDst cnf c.1 r c.2).2 = none ∧
      (routerChooseDst cnf c.1 r c.2).1.rrbNext = r.rrbNext) := by
  refine ⟨?_, fun c hg => cursor_back hp he hc hg⟩
  · intro hlen
    have hall : choices cnf r calls =
        ((wheel r.dst.length r.rrbNext).filter (fun i => decide (i ∈ G))).map some := by
      rw [choices_served hp he hc ha, hlen, ← card_wheel hG r.rrbNext]
      exact served_all _
    refine ⟨hall, fun i hi => ?_⟩
    have hnd : ((wheel r.dst.length r.rrbNext).filter (fun i => decide (i ∈ G))).Nodup :=
      (nodup_wheel _ _).filter _
    rw [hall, List.count_map_of_injective _ _ (Option.some_injective _)]
    apply List.count_eq_one_of_mem hnd
    simp [mem_wheel, hG i hi, hi]

/-- Three servers, the second inside its retry window, the cursor on the third. -/
def oneMarked : Router :=
  { Router.init with
    rrbNext := 2
    dst := [routerNewDst ⟨serverA, 1⟩ none 0, { routerNewDst ⟨serverB, 1⟩ none 0 with failed := 100 },
      routerNewDst ⟨⟨2, 3306, ⟨10, 0, 0, 3⟩, 0⟩, 1⟩ none 0] }

theorem round_robin_fair_one_marked :
    choices (balancing .round) oneMarked [(chooseAt 100, 0), (chooseAt 100, 0)] = [some 2, some 0] := by
  have ha : Along (chooseStep (balancing .round)) (GoodSet (balancing .round) {0, 2}) oneMarked
      [(chooseAt 100, 0), (chooseAt 100, 0)] := by decide +kernel
  obtain ⟨hall, _⟩ := (round_robin_fair rfl rfl (by decide) (by decide) ha).1 rfl
  exact hall.trans (by decide)

end round

end Glb.Proofs.Fairness
