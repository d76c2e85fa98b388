import Mathlib.Data.List.Nodup

namespace Lib.CondVar

/-- A mutex with one condition variable: who holds the mutex, who is blocked on
the condition, and who was signalled and wants the mutex back. Nobody wakes without a
signal, which POSIX would allow. -/
structure Monitor (T : Type) where
  owner : Option T
  waiting : List T
  woken : List T
  deriving DecidableEq, Repr

variable {T : Type} {m m' : Monitor T} {t u : T}

/-- A step that needs the monitor is taken when the monitor grants it. -/
theorem step_granted {σ : Type} {s : σ} {o : Option (Monitor T)} {f : Monitor T → σ}
    (h : (o.bind fun m => some (f m)) = some s) : ∃ m, o = some m ∧ f m = s := by
  obtain ⟨m, hm, h⟩ := Option.bind_eq_some_iff.mp h
  exact ⟨m, hm, Option.some.inj h⟩

namespace Monitor
variable [DecidableEq T]

def free : Monitor T := ⟨none, [], []⟩

def lock (m : Monitor T) (t : T) : Option (Monitor T) :=
  if m.owner = none then some { m with owner := some t } else none

def unlock (m : Monitor T) (t : T) : Option (Monitor T) :=
  if m.owner = some t then some { m with owner := none } else none

/-- Gives the mutex back and blocks, in one step. -/
def wait (m : Monitor T) (t : T) : Option (Monitor T) :=
  if m.owner = some t then some { m with owner := none, waiting := t :: m.waiting } else none

/-- Wakes one of the threads that are blocked, or nobody if there are none. -/
def signal (m : Monitor T) : Option T → Option (Monitor T)
  | none => if m.waiting = [] then some m else none
  | some t =>
    if t ∈ m.waiting then
      some { m with waiting := m.waiting.erase t, woken := t :: m.woken }
    else none

/-- Wakes all the threads that are blocked. -/
def broadcast (m : Monitor T) : Monitor T := { m with waiting := [], woken := m.waiting ++ m.woken }

/-- A thread that was woken gets the mutex and returns from its wait. -/
def resume (m : Monitor T) (t : T) : Option (Monitor T) :=
  if m.owner = none ∧ t ∈ m.woken then
    some { m with owner := some t, woken := m.woken.erase t }
  else none

theorem unlock_woken (h : m.unlock t = some m') : m'.woken = m.woken := by
  unfold unlock at h
  split at h
  · obtain rfl := Option.some.inj h
    rfl
  · cases h

theorem wait_woken (h : m.wait t = some m') : m'.woken = m.woken := by
  unfold wait at h
  split at h
  · obtain rfl := Option.some.inj h
    rfl
  · cases h

theorem resume_woken (h : m.resume t = some m') : m.owner = none ∧ t ∈ m.woken ∧ m'.woken = m.woken.erase t := by
  unfold resume at h
  split at h
  · rename_i hw
    obtain rfl := Option.some.inj h
    exact ⟨hw.1, hw.2, rfl⟩
  · cases h

/-- A signal wakes the thread that it names and nobody else. -/
theorem signal_woken (h : m.signal w = some m') :
    m'.owner = m.owner ∧ (u ∈ m'.woken ↔ w = some u ∨ u ∈ m.woken) := by
  unfold signal at h
  split at h
  · split at h
    · obtain rfl := Option.some.inj h
      simp
    · cases h
  · split at h
    · obtain rfl := Option.some.inj h
      simp [eq_comm]
    · cases h

end Monitor

theorem Monitor.lock_woken (h : m.lock t = some m') : m'.woken = m.woken := by
  unfold Monitor.lock at h
  split at h
  · obtain rfl := Option.some.inj h
    rfl
  · cases h

/-- The monitor agrees with what the threads say about themselves: who is between
lock and unlock, and who is inside a wait. -/
structure Tracks (m : Monitor T) (holds blocked : T → Prop) : Prop where
  owner : ∀ {t}, m.owner = some t ↔ holds t
  blocked : ∀ {t}, t ∈ m.waiting ++ m.woken ↔ blocked t
  nodup : (m.waiting ++ m.woken).Nodup

variable {H H' B B' : T → Prop}

theorem tracks_free (hH : ∀ t, ¬ H t) (hB : ∀ t, ¬ B t) : Tracks (.free : Monitor T) H B :=
  ⟨by simp [Monitor.free, hH], by simp [Monitor.free, hB], List.nodup_nil⟩

/-- No two threads hold the mutex. -/
theorem Tracks.excl (h : Tracks m H B) (ht : H t) (hu : H u) : t = u :=
  Option.some.inj ((h.owner.mpr ht).symm.trans (h.owner.mpr hu))

theorem Tracks.waiting_blocked (h : Tracks m H B) (ht : t ∈ m.waiting) : B t :=
  h.blocked.mp (List.mem_append_left _ ht)

theorem Tracks.mono (h : Tracks m H B) (hH : ∀ u, H' u ↔ H u) (hB : ∀ u, B' u ↔ B u) :
    Tracks m H' B' :=
  ⟨h.owner.trans (hH _).symm, h.blocked.trans (hB _).symm, h.nodup⟩

/-- One thread moves: what holds of it may change, and of no other. -/
theorem moved_stays (ho : ∀ u, u ≠ t → (H' u ↔ H u)) (h : H' t ↔ H t) (u : T) : H' u ↔ H u := by
  by_cases hu : u = t
  · exact hu ▸ h
  · exact ho u hu

theorem moved_enters (ho : ∀ u, u ≠ t → (H' u ↔ H u)) (h : H' t) (u : T) : H' u ↔ u = t ∨ H u := by
  by_cases hu : u = t
  · simp [hu, h]
  · simp [hu, ho u hu]

theorem moved_leaves (ho : ∀ u, u ≠ t → (H' u ↔ H u)) (h : ¬ H' t) (u : T) : H' u ↔ u ≠ t ∧ H u := by
  by_cases hu : u = t
  · simp [hu, h]
  · simp [hu, ho u hu]

/-- The rule for a thread that takes the mutex. -/
theorem Tracks.lock (h : Tracks m H B) (hl : m.lock t = some m') (hH : ∀ u, H' u ↔ u = t ∨ H u)
    (hB : ∀ u, B' u ↔ B u) :
    Tracks m' H' B' ∧ m'.waiting = m.waiting := by
  unfold Monitor.lock at hl
  split at hl
  · rename_i hfree
    simp only [Option.some.injEq] at hl
    subst hl
    refine ⟨⟨?_, h.blocked.trans (hB _).symm, h.nodup⟩, rfl⟩
    intro u
    rw [hH, ← h.owner, hfree]
    simp [eq_comm]
  · cases hl

theorem Tracks.broadcast (h : Tracks m H B) : Tracks m.broadcast H B :=
  ⟨h.owner, h.blocked, h.nodup⟩

variable [DecidableEq T]

/-- The rule for a thread that gives it back. -/
theorem Tracks.unlock (h : Tracks m H B) (hl : m.unlock t = some m')
    (hH : ∀ u, H' u ↔ u ≠ t ∧ H u) (hB : ∀ u, B' u ↔ B u) :
    Tracks m' H' B' ∧ m'.waiting = m.waiting := by
  unfold Monitor.unlock at hl
  split at hl
  · rename_i hown
    simp only [Option.some.injEq] at hl
    subst hl
    refine ⟨⟨?_, h.blocked.trans (hB _).symm, h.nodup⟩, rfl⟩
    intro u
    rw [hH, ← h.owner, hown]
    simp [eq_comm]
  · cases hl

/-- The rule for a thread that starts to wait. -/
theorem Tracks.wait (h : Tracks m H B) (hl : m.wait t = some m') (ht : ¬ B t)
    (hH : ∀ u, H' u ↔ u ≠ t ∧ H u) (hB : ∀ u, B' u ↔ u = t ∨ B u) :
    Tracks m' H' B' ∧ m'.waiting = t :: m.waiting := by
  unfold Monitor.wait at hl
  split at hl
  · rename_i hown
    simp only [Option.some.injEq] at hl
    subst hl
    refine ⟨⟨?_, ?_, ?_⟩, rfl⟩
    · intro u
      rw [hH, ← h.owner, hown]
      simp [eq_comm]
    · intro u
      rw [hB, ← h.blocked]
      simp
    · exact List.nodup_cons.mpr ⟨fun hm => ht (h.blocked.mp hm), h.nodup⟩
  · cases hl

/-- The rule for a signal: somebody wakes up if anybody waits. -/
theorem Tracks.signal (h : Tracks m H B) (hl : m.signal w = some m') :
    Tracks m' H B ∧ ((w = none ∧ m.waiting = [] ∧ m'.waiting = []) ∨
      ∃ t, w = some t ∧ t ∈ m.waiting ∧ m'.waiting = m.waiting.erase t) := by
  unfold Monitor.signal at hl
  split at hl
  · split at hl
    · rename_i hnone
      simp only [Option.some.injEq] at hl
      subst hl
      exact ⟨h, Or.inl ⟨rfl, hnone, hnone⟩⟩
    · cases hl
  · rename_i t
    split at hl
    · rename_i hmem
      simp only [Option.some.injEq] at hl
      subst hl
      have hperm : (m.waiting.erase t ++ t :: m.woken).Perm (m.waiting ++ m.woken) :=
        List.perm_middle.trans ((List.perm_cons_erase hmem).symm.append_right m.woken)
      refine ⟨⟨h.owner, hperm.mem_iff.trans h.blocked, hperm.symm.nodup h.nodup⟩, ?_⟩
      exact Or.inr ⟨t, rfl, hmem, rfl⟩
    · cases hl

/-- The rule for a thread that returns from its wait. -/
theorem Tracks.resume (h : Tracks m H B) (hl : m.resume t = some m')
    (hH : ∀ u, H' u ↔ u = t ∨ H u) (hB : ∀ u, B' u ↔ u ≠ t ∧ B u) :
    Tracks m' H' B' ∧ m'.waiting = m.waiting ∧ t ∉ m.waiting := by
  unfold Monitor.resume at hl
  split at hl
  · rename_i hw
    simp only [Option.some.injEq] at hl
    subst hl
    have hperm : (m.waiting ++ m.woken).Perm (t :: (m.waiting ++ m.woken.erase t)) :=
      ((List.perm_cons_erase hw.2).append_left m.waiting).trans List.perm_middle
    have hn := List.nodup_cons.mp (hperm.nodup h.nodup)
    refine ⟨⟨?_, ?_, hn.2⟩, rfl, fun hm => hn.1 (List.mem_append_left _ hm)⟩
    · intro u
      rw [hH, ← h.owner, hw.1]
      simp [eq_comm]
    · intro u
      rw [hB, ← h.blocked, hperm.mem_iff]
      constructor
      · intro hm
        exact ⟨fun he => hn.1 (he ▸ hm), List.mem_cons_of_mem _ hm⟩
      · intro hm
        exact List.mem_of_ne_of_mem hm.1 hm.2
  · cases hl

end Lib.CondVar
