import Mathlib.Data.List.Basic

namespace Lib.Run

/-- Executes the labels in turn. A label that the system refuses ends the run
without a final state. -/
def exec (step : S → L → Option S) : S → List L → Option S
  | s, [] => some s
  | s, l :: ls => (step s l).bind (fun t => exec step t ls)

/-- `ok` holds of every step of the run, judged in the state the step leaves. -/
def Along (step : S → L → Option S) (ok : S → L → Prop) : S → List L → Prop
  | _, [] => True
  | s, l :: ls => ok s l ∧ ∀ t, step s l = some t → Along step ok t ls

/-- Runs are read off a concrete label list in witnesses and counterexamples. -/
instance decidableAlong (step : S → L → Option S) (ok : S → L → Prop)
    [∀ s l, Decidable (ok s l)] : (s : S) → (ls : List L) → Decidable (Along step ok s ls)
  | _, [] => .isTrue trivial
  | s, l :: ls =>
    match h : step s l with
    | none => decidable_of_iff (ok s l) (by simp [Along, h])
    | some t =>
      have := decidableAlong step ok t ls
      decidable_of_iff (ok s l ∧ Along step ok t ls) (by simp [Along, h])

theorem exec_cons (step : S → L → Option S) (s : S) (l : L) (ls : List L) :
    exec step s (l :: ls) = (step s l).bind (fun t => exec step t ls) := rfl

theorem exec_cons_some {step : S → L → Option S} (h : exec step s (l :: ls) = some t) :
    ∃ u, step s l = some u ∧ exec step u ls = some t :=
  Option.bind_eq_some_iff.mp h

theorem exec_one {step : S → L → Option S} (h : step s l = some t) : exec step s [l] = some t := by
  rw [exec_cons, h]
  rfl

theorem exec_append (step : S → L → Option S) (s : S) (ls ms : List L) :
    exec step s (ls ++ ms) = (exec step s ls).bind (fun t => exec step t ms) := by
  induction ls generalizing s with
  | nil => rfl
  | cons l ls ih =>
    simp only [List.cons_append, exec_cons]
    cases step s l with
    | none => rfl
    | some t => exact ih t

theorem along_append (step : S → L → Option S) (ok : S → L → Prop) (s : S) (ls ms : List L) :
    Along step ok s (ls ++ ms) ↔
      Along step ok s ls ∧ ∀ t, exec step s ls = some t → Along step ok t ms := by
  induction ls generalizing s with
  | nil => simp [Along, exec]
  | cons l ls ih =>
    simp only [List.cons_append, Along, exec_cons, ih]
    constructor
    · rintro ⟨hl, hr⟩
      refine ⟨⟨hl, fun t ht => (hr t ht).1⟩, ?_⟩
      intro u hu
      cases ht : step s l with
      | none => simp [ht] at hu
      | some t => exact (hr t ht).2 u (by simpa [ht] using hu)
    · rintro ⟨⟨hl, hr⟩, hm⟩
      exact ⟨hl, fun t ht => ⟨hr t ht, fun u hu => hm u (by simpa [ht] using hu)⟩⟩

/-- A run that ends somewhere, with its end named. -/
theorem exec_getD {step : S → L → Option S} (d : S) (h : (exec step s ls).isSome = true) :
    exec step s ls = some ((exec step s ls).getD d) := by
  obtain ⟨t, ht⟩ := Option.isSome_iff_exists.mp h
  rw [ht]
  rfl

theorem along_true (step : S → L → Option S) (s : S) (ls : List L) :
    Along step (fun _ _ => True) s ls := by
  induction ls generalizing s with
  | nil => trivial
  | cons l ls ih => exact ⟨trivial, fun t _ => ih t⟩

/-- The rule for runs whose steps all meet a condition: what one such step
keeps, the whole run keeps. -/
theorem exec_keeps {step : S → L → Option S} {ok : S → L → Prop} {inv : S → Prop}
    (keep : ∀ s l t, inv s → ok s l → step s l = some t → inv t)
    (hs : inv s) (ha : Along step ok s ls) (h : exec step s ls = some t) : inv t := by
  induction ls generalizing s with
  | nil =>
    simp only [exec, Option.some.injEq] at h
    exact h ▸ hs
  | cons l ls ih =>
    obtain ⟨u, hu, h⟩ := exec_cons_some h
    exact ih (keep s l u hs ha.1 hu) (ha.2 u hu) h

/-- The unconditional rule. -/
theorem exec_invariant {step : S → L → Option S} {inv : S → Prop}
    (keep : ∀ s l t, inv s → step s l = some t → inv t)
    (hs : inv s) (h : exec step s ls = some t) : inv t :=
  exec_keeps (fun s l t hi _ => keep s l t hi) hs (along_true step s ls) h

/-- Along a run whose steps all meet one condition, what an invariant of such runs
implies holds of every step. -/
theorem along_keeps {step : S → L → Option S} {ok ok' : S → L → Prop} {inv : S → Prop}
    (keep : ∀ s l t, inv s → ok s l → step s l = some t → inv t)
    (imp : ∀ s l, inv s → ok s l → ok' s l) (hs : inv s) (ha : Along step ok s ls) :
    Along step ok' s ls := by
  induction ls generalizing s with
  | nil => trivial
  | cons l ls ih =>
    exact ⟨imp s l hs ha.1, fun t ht => ih (keep s l t hs ha.1 ht) (ha.2 t ht)⟩

theorem along_invariant {step : S → L → Option S} {ok : S → L → Prop} {inv : S → Prop}
    (keep : ∀ s l t, inv s → step s l = some t → inv t) (imp : ∀ s l, inv s → ok s l) (hs : inv s)
    (ls : List L) : Along step ok s ls :=
  along_keeps (fun s l t hi _ => keep s l t hi) (fun s l hi _ => imp s l hi) hs (along_true step s ls)

/-- A condition on the labels alone is met along the run if every label meets it. -/
theorem along_labels {step : S → L → Option S} {ok : S → L → Prop} {only : L → Prop}
    (ha : Along step ok s ls) (hl : ∀ l ∈ ls, only l) : Along step (fun s l => ok s l ∧ only l) s ls := by
  induction ls generalizing s with
  | nil => trivial
  | cons l ls ih =>
    exact ⟨⟨ha.1, hl l List.mem_cons_self⟩,
      fun t ht => ih (ha.2 t ht) (fun l hm => hl l (List.mem_cons_of_mem _ hm))⟩

/-- Runs of a system whose steps all bring a measure down are no longer than the
measure of their first state. -/
theorem exec_length {step : S → L → Option S} {left : S → Nat} {inv : S → Prop}
    (keep : ∀ s l t, inv s → step s l = some t → inv t ∧ left t < left s)
    (hs : inv s) (h : exec step s ls = some t) : ls.length ≤ left s := by
  induction ls generalizing s with
  | nil => exact Nat.zero_le _
  | cons l ls ih =>
    obtain ⟨u, hu, h⟩ := exec_cons_some h
    obtain ⟨hi, hlt⟩ := keep s l u hs hu
    have hle := ih hi h
    simp only [List.length_cons]
    omega

/-- A quantity that each step raises by a cost is back where it was exactly if every
step was free. -/
theorem exec_free_iff {step : S → L → Option S} {f : S → Int} {cost : S → L → Nat} {inv : S → Prop}
    (keep : ∀ s l t, inv s → step s l = some t → inv t ∧ f t = f s + cost s l)
    (hs : inv s) (h : exec step s ls = some t) :
    f s ≤ f t ∧ (f t = f s ↔ Along step (fun s l => cost s l = 0) s ls) := by
  induction ls generalizing s with
  | nil =>
    simp only [exec, Option.some.injEq] at h
    subst h
    exact ⟨Int.le_refl _, by simp [Along]⟩
  | cons l ls ih =>
    obtain ⟨u, hu, h⟩ := exec_cons_some h
    obtain ⟨hi, hf⟩ := keep s l u hs hu
    obtain ⟨hle, hiff⟩ := ih hi h
    refine ⟨by omega, ?_⟩
    constructor
    · intro he
      refine ⟨by omega, fun v hv => ?_⟩
      rw [hu, Option.some.injEq] at hv
      exact hv ▸ hiff.mp (by omega)
    · rintro ⟨hc, hrest⟩
      have := hiff.mpr (hrest u hu)
      omega

/-- A run that can be continued to a step that fails. -/
theorem not_along_after {step : S → L → Option S} {ok : S → L → Prop} (h : exec step s ls = some t)
    (hn : ¬ Along step ok t ms) : ¬ Along step ok s (ls ++ ms) :=
  fun ha => hn (((along_append step ok s ls ms).mp ha).2 t h)

/-- `ok` holds of every pair of states that two systems are in before the same label. -/
def Along₂ (step step' : S → L → Option S) (ok : S → S → L → Prop) : S → S → List L → Prop
  | _, _, [] => True
  | s, s', l :: ls =>
    ok s s' l ∧ ∀ t t', step s l = some t → step' s' l = some t' → Along₂ step step' ok t t' ls

/-- Two systems look alike after every prefix of their labels exactly if they do after
each step. -/
theorem exec_agree_iff {step step' : S → L → Option S} {ok : S → S → L → Prop} {f : S → O} {s s' : S}
    (hstep : ∀ s s' l, f s = f s' → ((step s l).map f = (step' s' l).map f ↔ ok s s' l)) (hs : f s = f s')
    (ls : List L) :
    (∀ k, (exec step s (ls.take k)).map f = (exec step' s' (ls.take k)).map f) ↔ Along₂ step step' ok s s' ls := by
  induction ls generalizing s s' with
  | nil => simp [exec, Along₂, hs]
  | cons l ls ih =>
    constructor
    · intro h
      have hone := h 1
      rw [List.take_succ_cons, List.take_zero, exec_cons, exec_cons] at hone
      refine ⟨(hstep s s' l hs).mp (by simpa [exec] using hone), fun t t' ht ht' => ?_⟩
      have hnext : f t = f t' := by simpa [exec, ht, ht'] using hone
      refine (ih hnext).mp fun k => ?_
      have hk := h (k + 1)
      rwa [List.take_succ_cons, exec_cons, exec_cons, ht, ht'] at hk
    · rintro ⟨hok, hrest⟩ k
      cases k with
      | zero => simp [exec, hs]
      | succ k =>
        have hone := (hstep s s' l hs).mpr hok
        rw [List.take_succ_cons, exec_cons, exec_cons]
        cases ht : step s l with
        | none =>
          rw [ht] at hone
          rw [Option.map_eq_none_iff.mp hone.symm]
          rfl
        | some t =>
          rw [ht] at hone
          obtain ⟨t', ht', hnext⟩ := Option.map_eq_some_iff.mp hone.symm
          rw [ht']
          exact (ih hnext.symm).mpr (hrest t t' ht ht') k

/-- Simulation with stuttering: where every step of a system is matched by some labels of
a more abstract one, so is every run. What the system has shown so far is `obs`, and
`vis` tells which abstract labels show. -/
theorem exec_simulates {step : S → L → Option S} {astep : A → M → Option A} {inv : S → Prop}
    {R : S → A → Prop} (obs : S → List O) {vis : M → Option O}
    (sim : ∀ s l t a, inv s → R s a → step s l = some t → inv t ∧
      ∃ ms b, exec astep a ms = some b ∧ R t b ∧ obs t = obs s ++ ms.filterMap vis)
    (hi : inv s) (hr : R s a) (h : exec step s ls = some t) :
    ∃ ms b, exec astep a ms = some b ∧ R t b ∧ obs t = obs s ++ ms.filterMap vis := by
  induction ls generalizing s a with
  | nil =>
    simp only [exec, Option.some.injEq] at h
    exact ⟨[], a, rfl, h ▸ hr, by simp [h]⟩
  | cons l ls ih =>
    obtain ⟨u, hu, h⟩ := exec_cons_some h
    obtain ⟨hiu, ms, b, hms, hrb, hobs⟩ := sim s l u a hi hr hu
    obtain ⟨ms', b', hms', hrb', hobs'⟩ := ih hiu hrb h
    refine ⟨ms ++ ms', b', ?_, hrb', ?_⟩
    · rw [exec_append, hms]
      exact hms'
    · rw [hobs', hobs, List.filterMap_append, List.append_assoc]

/-- The labels of another system that stand for those of a run, read off the states the
run goes through. -/
def translate (step : S → L → Option S) (tr : S → L → List M) : S → List L → List M
  | _, [] => []
  | s, l :: ls => tr s l ++ (step s l).elim [] (fun t => translate step tr t ls)

/-- Where the labels that stand for one step lead to a related state, those that stand for
a run do. -/
theorem exec_translates {step : S → L → Option S} {astep : A → M → Option A} {tr : S → L → List M}
    {R : S → A → Prop}
    (sim : ∀ s l t a, R s a → step s l = some t → ∃ b, exec astep a (tr s l) = some b ∧ R t b)
    (hr : R s a) (h : exec step s ls = some t) :
    ∃ b, exec astep a (translate step tr s ls) = some b ∧ R t b := by
  induction ls generalizing s a with
  | nil =>
    simp only [exec, Option.some.injEq] at h
    exact ⟨a, rfl, h ▸ hr⟩
  | cons l ls ih =>
    obtain ⟨u, hu, h⟩ := exec_cons_some h
    obtain ⟨b, hb, hrb⟩ := sim s l u a hr hu
    obtain ⟨c, hc, hrc⟩ := ih hrb h
    refine ⟨c, ?_, hrc⟩
    rw [translate, hu, exec_append, hb]
    exact hc

end Lib.Run
