import Glb.Lib.Run
import Glb.Probe

namespace Glb.Proofs.ProbeFresh
open Function Lib.Run Lib.CondVar

def ProbePc.holds : ProbePc → Bool
  | .locked _ => true
  | .counted _ => true
  | .signalled _ => true
  | .returning _ => true
  | _ => false

def ProbePc.waits : ProbePc → Bool
  | .blocked _ => true
  | .expired => true
  | _ => false

/-- How many results had been stored when the call was made. -/
def ProbePc.began : ProbePc → Option Nat
  | .called n => some n
  | .locked n => some n
  | .counted n => some n
  | .signalled n => some n
  | .blocked n => some n
  | _ => none

def ExecPc.holds : ExecPc → Bool
  | .testing => true
  | .storing _ _ => true
  | .notified _ _ => true
  | .stored _ => true
  | .leaving => true
  | .cleared => true
  | _ => false

/-- The thread has signalled the probers and not yet stored their result. -/
def ExecPc.notified : ExecPc → Bool
  | .notified _ _ => true
  | _ => false

/-- The thread is between lock and unlock. -/
def pcHolds : (t : ProbeThread) → PcOf t → Bool
  | .prober _, pc => ProbePc.holds pc
  | .backend, pc => ExecPc.holds pc
  | .watchdog _, pc => pc ≠ WatchPc.out

/-- The thread is inside a wait. -/
def pcWaits : (t : ProbeThread) → PcOf t → Bool
  | .prober _, pc => ProbePc.waits pc
  | .backend, pc => pc = ExecPc.sleeping
  | .watchdog _, _ => false

def holds (pc : (t : ProbeThread) → PcOf t) (t : ProbeThread) : Prop := pcHolds t (pc t) = true

def waits (pc : (t : ProbeThread) → PcOf t) (t : ProbeThread) : Prop := pcWaits t (pc t) = true

/-- A result was stored since the prober made its call. -/
def Served (s : Probing) (id : Nat) : Prop :=
  match (s.pc (.prober id) : ProbePc) with
  | .blocked n => n < s.stores
  | _ => True

/-- A prober that copies the result copies one that was stored since its call. -/
def Fresh (s : Probing) : ProbeOp → Prop
  | .probe id .wake => (glbBackendProbe s id .wake).isSome = true → Served s id
  | _ => True

/-- A prober that is woken by another prober or by the watchdog has its result
already. -/
def WakesServed (s : Probing) : ProbeOp → Prop
  | .probe _ (.signal (some (.prober id))) => Served s id
  | .watch _ (.signal (some (.prober id))) => Served s id
  | _ => True

/-- What one step of `glb_backend_probe` comes to. -/
inductive ProbeFate (s : Probing) (id : Nat) : ProbeStep → Probing → Prop
  | call (hpc : s.pc (.prober id) = .out) : ProbeFate s id .call (s.goto (.prober id) (.called s.stores))
  | lock {n mon} (hpc : s.pc (.prober id) = .called n) (hm : s.mon.lock (.prober id) = some mon) :
    ProbeFate s id .lock { s.goto (.prober id) (.locked n) with mon := mon }
  | counted {n} (hpc : s.pc (.prober id) = .locked n) :
    ProbeFate s id .test { s.goto (.prober id) (.counted n) with waiting := s.waiting + 1 }
  | refused {n} (hpc : s.pc (.prober id) = .locked n) :
    ProbeFate s id .test (s.goto (.prober id) (.returning .zero))
  | signal {n mon wakes} (hpc : s.pc (.prober id) = .counted n) (hm : s.mon.signal wakes = some mon) :
    ProbeFate s id (.signal wakes) { s.goto (.prober id) (.signalled n) with mon := mon }
  | wait {n mon} (hpc : s.pc (.prober id) = .signalled n) (hm : s.mon.wait (.prober id) = some mon) :
    ProbeFate s id .wait { s.goto (.prober id) (.blocked n) with mon := mon }
  | timeout {n mon} (hpc : s.pc (.prober id) = .blocked n)
    (hm : s.mon.signal (some (.prober id)) = some mon) :
    ProbeFate s id .timeout { s.goto (.prober id) .expired with mon := mon }
  | copied {n mon} (hpc : s.pc (.prober id) = .blocked n) (hm : s.mon.resume (.prober id) = some mon) :
    ProbeFate s id .wake { s.goto (.prober id) (.returning s.result) with mon := mon }
  | expired {mon} (hpc : s.pc (.prober id) = .expired) (hm : s.mon.resume (.prober id) = some mon) :
    ProbeFate s id .wake { s.goto (.prober id) (.returning .zero) with mon := mon }
  | unlock {res mon} (hpc : s.pc (.prober id) = .returning res) (hm : s.mon.unlock (.prober id) = some mon) :
    ProbeFate s id .unlock { s.goto (.prober id) .out with mon := mon }

/-- What one step of `exec_thread` comes to. -/
inductive ExecFate (s : Probing) : ExecStep → Probing → Prop
  | leave (hpc : s.pc .backend = .testing) : ExecFate s .test (s.goto .backend .leaving)
  | loop {mon} (hpc : s.pc .backend = .testing) (hm : s.mon.unlock .backend = some mon) :
    ExecFate s .test { s.goto .backend .polling with mon := mon }
  | poll (r : WdogCheck) (errn : Int) (hpc : s.pc .backend = .polling) :
    ExecFate s (.poll r errn) (s.goto .backend (.polled r errn))
  | lock {r errn mon} (hpc : s.pc .backend = .polled r errn) (hm : s.mon.lock .backend = some mon) :
    ExecFate s .lock { s.goto .backend (.storing r errn) with mon := mon }
  | notify {r errn wakes mon} (hpc : s.pc .backend = .storing r errn) (hm : execNotify s wakes = some mon) :
    ExecFate s (.notify wakes) { s.goto .backend (.notified r errn) with mon := mon, waiting := 0 }
  | store {r errn} (hpc : s.pc .backend = .notified r errn) :
    ExecFate s .store { s.goto .backend (.stored errn) with result := r, stores := s.stores + 1 }
  | wait {errn mon} (hpc : s.pc .backend = .stored errn) (hm : s.mon.wait .backend = some mon) :
    ExecFate s .wait { s.goto .backend .sleeping with mon := mon }
  | failed {errn} (hpc : s.pc .backend = .stored errn) : ExecFate s .wait (s.goto .backend .leaving)
  | timeout {mon} (hpc : s.pc .backend = .sleeping) (hm : s.mon.signal (some .backend) = some mon) :
    ExecFate s .timeout { s with mon := mon }
  | wake {mon} (hpc : s.pc .backend = .sleeping) (hm : s.mon.resume .backend = some mon) :
    ExecFate s .wake { s.goto .backend .testing with mon := mon }
  | clear (hpc : s.pc .backend = .leaving) :
    ExecFate s .clear { s.goto .backend .cleared with result := .zero, join := true, stores := s.stores + 1 }
  | unlock {mon} (hpc : s.pc .backend = .cleared) (hm : s.mon.unlock .backend = some mon) :
    ExecFate s .unlock { s.goto .backend .gone with mon := mon }

/-- What one step of a watchdog thread comes to. -/
inductive WatchFate (s : Probing) (id : Nat) : WatchStep → Probing → Prop
  | lock {mon} (hpc : s.pc (.watchdog id) = .out) (hm : s.mon.lock (.watchdog id) = some mon) :
    WatchFate s id .lock { s.goto (.watchdog id) .locked with mon := mon }
  | take (hpc : s.pc (.watchdog id) = .locked) :
    WatchFate s id .take { s with result := { s.result with ready := false } }
  | quit (hpc : s.pc (.watchdog id) = .locked) :
    WatchFate s id .quit { s.goto (.watchdog id) .quitting with quit := true }
  | signal {wakes mon} (hpc : s.pc (.watchdog id) = .quitting) (hm : s.mon.signal wakes = some mon) :
    WatchFate s id (.signal wakes) { s.goto (.watchdog id) .locked with mon := mon }
  | unlock {mon} (hpc : s.pc (.watchdog id) = .locked) (hm : s.mon.unlock (.watchdog id) = some mon) :
    WatchFate s id .unlock { s.goto (.watchdog id) .out with mon := mon }

variable {s s' : Probing} {t u : ProbeThread} {id j n : Nat} {op : ProbeOp} {ops : List ProbeOp}
  {mon : Monitor ProbeThread} {pc : (t : ProbeThread) → PcOf t} {wakes : Option ProbeThread}

theorem served_iff : Served s id ↔ ∀ n, s.pc (.prober id) = .blocked n → n < s.stores := by
  unfold Served
  cases hpc : (s.pc (.prober id) : ProbePc) <;> simp

instance : Decidable (Served s id) := by
  unfold Served
  exact match (s.pc (.prober id) : ProbePc) with
  | .blocked n => inferInstanceAs (Decidable (n < s.stores))
  | .out | .called _ | .locked _ | .counted _ | .signalled _ | .expired | .returning _ => .isTrue trivial

instance : (op : ProbeOp) → Decidable (Fresh s op)
  | .probe id .wake => inferInstanceAs (Decidable ((glbBackendProbe s id .wake).isSome = true → Served s id))
  | .probe _ .call | .probe _ .lock | .probe _ .test | .probe _ (.signal _) | .probe _ .wait
  | .probe _ .timeout | .probe _ .unlock | .exec _ | .watch _ _ => .isTrue trivial

instance : (op : ProbeOp) → Decidable (WakesServed s op)
  | .probe _ (.signal (some (.prober id))) => inferInstanceAs (Decidable (Served s id))
  | .watch _ (.signal (some (.prober id))) => inferInstanceAs (Decidable (Served s id))
  | .probe _ (.signal (some .backend)) | .probe _ (.signal (some (.watchdog _)))
  | .probe _ (.signal none) | .watch _ (.signal (some .backend))
  | .watch _ (.signal (some (.watchdog _))) | .watch _ (.signal none) | .probe _ .call
  | .probe _ .lock | .probe _ .test | .probe _ .wait | .probe _ .timeout | .probe _ .wake
  | .probe _ .unlock | .exec _ | .watch _ .lock | .watch _ .take | .watch _ .quit | .watch _ .unlock => .isTrue trivial

section threads

theorem holds_other (p : PcOf t) (u : ProbeThread) (hu : u ≠ t) : holds (update pc t p) u ↔ holds pc u := by
  simp [holds, hu]

theorem waits_other (p : PcOf t) (u : ProbeThread) (hu : u ≠ t) : waits (update pc t p) u ↔ waits pc u := by
  simp [waits, hu]

variable {m : Monitor ProbeThread}

/-- The monitor keeps track of a thread that goes on without it, takes it, gives it
back, waits and is woken. -/
theorem stay_tracks (h : Tracks m (holds pc) (waits pc)) (p : PcOf t) (hh : pcHolds t p = pcHolds t (pc t))
    (hw : pcWaits t p = pcWaits t (pc t)) : Tracks m (holds (update pc t p)) (waits (update pc t p)) :=
  h.mono (moved_stays (holds_other p) (by simp [holds, hh])) (moved_stays (waits_other p) (by simp [waits, hw]))

theorem lock_tracks (h : Tracks m (holds pc) (waits pc)) (hm : m.lock t = some mon) (p : PcOf t)
    (hh : pcHolds t p = true) (hw : pcWaits t p = pcWaits t (pc t)) :
    Tracks mon (holds (update pc t p)) (waits (update pc t p)) :=
  (h.lock hm (moved_enters (holds_other p) (by simp [holds, hh])) (moved_stays (waits_other p) (by simp [waits, hw]))).1

theorem unlock_tracks (h : Tracks m (holds pc) (waits pc)) (hm : m.unlock t = some mon) (p : PcOf t)
    (hh : pcHolds t p = false) (hw : pcWaits t p = pcWaits t (pc t)) :
    Tracks mon (holds (update pc t p)) (waits (update pc t p)) :=
  (h.unlock hm (moved_leaves (holds_other p) (by simp [holds, hh])) (moved_stays (waits_other p) (by simp [waits, hw]))).1

theorem wait_tracks (h : Tracks m (holds pc) (waits pc)) (hm : m.wait t = some mon) (p : PcOf t)
    (ht : pcWaits t (pc t) = false) (hh : pcHolds t p = false) (hw : pcWaits t p = true) :
    Tracks mon (holds (update pc t p)) (waits (update pc t p)) :=
  (h.wait hm (by simp [waits, ht]) (moved_leaves (holds_other p) (by simp [holds, hh]))
    (moved_enters (waits_other p) (by simp [waits, hw]))).1

theorem resume_tracks (h : Tracks m (holds pc) (waits pc)) (hm : m.resume t = some mon) (p : PcOf t)
    (hh : pcHolds t p = true) (hw : pcWaits t p = false) :
    Tracks mon (holds (update pc t p)) (waits (update pc t p)) :=
  (h.resume hm (moved_enters (holds_other p) (by simp [holds, hh]))
    (moved_leaves (waits_other p) (by simp [waits, hw]))).1

/-- Nobody is woken who does not wait. -/
theorem not_blocked (h : Tracks m (holds pc) (waits pc)) (ht : pcWaits t (pc t) = false) : t ∉ m.woken := by
  intro hm
  have hw := h.blocked.mp (List.mem_append_right _ hm)
  rw [waits, ht] at hw
  cases hw

end threads

section fates

theorem probe_cases {step : ProbeStep} (h : glbBackendProbe s id step = some s') : ProbeFate s id step s' := by
  unfold glbBackendProbe at h
  simp only at h
  split at h
  · rename_i hpc
    exact Option.some.inj h ▸ .call hpc
  · rename_i hpc
    obtain ⟨mon, hm, rfl⟩ := step_granted h
    exact .lock hpc hm
  · rename_i hpc
    split at h
    · exact Option.some.inj h ▸ .counted hpc
    · exact Option.some.inj h ▸ .refused hpc
  · rename_i hpc
    obtain ⟨mon, hm, rfl⟩ := step_granted h
    exact .signal hpc hm
  · rename_i hpc
    obtain ⟨mon, hm, rfl⟩ := step_granted h
    exact .wait hpc hm
  · rename_i hpc
    obtain ⟨mon, hm, rfl⟩ := step_granted h
    exact .timeout hpc hm
  · rename_i hpc
    obtain ⟨mon, hm, rfl⟩ := step_granted h
    exact .copied hpc hm
  · rename_i hpc
    obtain ⟨mon, hm, rfl⟩ := step_granted h
    exact .expired hpc hm
  · rename_i hpc
    obtain ⟨mon, hm, rfl⟩ := step_granted h
    exact .unlock hpc hm
  · cases h

theorem exec_cases {step : ExecStep} (h : execThread s step = some s') : ExecFate s step s' := by
  unfold execThread at h
  simp only at h
  split at h
  · rename_i hpc
    split at h
    · exact Option.some.inj h ▸ .leave hpc
    · obtain ⟨mon, hm, rfl⟩ := step_granted h
      exact .loop hpc hm
  · rename_i hpc
    exact Option.some.inj h ▸ .poll _ _ hpc
  · rename_i hpc
    obtain ⟨mon, hm, rfl⟩ := step_granted h
    exact .lock hpc hm
  · rename_i hpc
    obtain ⟨mon, hm, rfl⟩ := step_granted h
    exact .notify hpc hm
  · rename_i hpc
    exact Option.some.inj h ▸ .store hpc
  · rename_i hpc
    split at h
    · obtain ⟨mon, hm, rfl⟩ := step_granted h
      exact .wait hpc hm
    · exact Option.some.inj h ▸ .failed hpc
  · rename_i hpc
    obtain ⟨mon, hm, rfl⟩ := step_granted h
    exact .timeout hpc hm
  · rename_i hpc
    obtain ⟨mon, hm, rfl⟩ := step_granted h
    exact .wake hpc hm
  · rename_i hpc
    exact Option.some.inj h ▸ .clear hpc
  · rename_i hpc
    obtain ⟨mon, hm, rfl⟩ := step_granted h
    exact .unlock hpc hm
  · cases h

theorem watch_cases {step : WatchStep} (h : wdogThread s id step = some s') : WatchFate s id step s' := by
  unfold wdogThread at h
  simp only at h
  split at h
  · rename_i hpc
    obtain ⟨mon, hm, rfl⟩ := step_granted h
    exact .lock hpc hm
  · rename_i hpc
    exact Option.some.inj h ▸ .take hpc
  · rename_i hpc
    exact Option.some.inj h ▸ .quit hpc
  · rename_i hpc
    obtain ⟨mon, hm, rfl⟩ := step_granted h
    exact .signal hpc hm
  · rename_i hpc
    obtain ⟨mon, hm, rfl⟩ := step_granted h
    exact .unlock hpc hm
  · cases h

end fates

/-- No call began in the future, and a prober that the backend thread has woken gets
its result before the lock is free. -/
structure Inv (s : Probing) : Prop where
  tracks : Tracks s.mon (holds s.pc) (waits s.pc)
  began : ∀ {id n}, ProbePc.began (s.pc (.prober id)) = some n → n ≤ s.stores
  woken : ∀ {id n}, s.pc (.prober id) = .blocked n → .prober id ∈ s.mon.woken →
    n < s.stores ∨ ExecPc.notified (s.pc .backend) = true

theorem inv_init : Inv .init where
  tracks := by
    refine ⟨?_, ?_, List.nodup_nil⟩
    · intro t
      cases t <;> simp [Probing.init, holds, pcHolds, ProbePc.holds, ExecPc.holds]
    · intro t
      cases t <;> simp [Probing.init, waits, pcWaits, ProbePc.waits]
  began := by simp [Probing.init, ProbePc.began]
  woken := by simp [Probing.init]

section keeps

/-- A step of a prober. -/
theorem Inv.probe {p : ProbePc} (I : Inv s) (hpc : s'.pc = update s.pc (.prober id) p)
    (hst : s'.stores = s.stores) (htr : Tracks s'.mon (holds s'.pc) (waits s'.pc))
    (hb : ∀ n, ProbePc.began p = some n → n ≤ s.stores) (hnew : ∀ n, p = .blocked n → .prober id ∉ s'.mon.woken)
    (hold : ∀ j n, j ≠ id → s.pc (.prober j) = .blocked n → .prober j ∈ s'.mon.woken →
      .prober j ∈ s.mon.woken ∨ n < s.stores) : Inv s' := by
  refine ⟨htr, ?_, ?_⟩
  · intro j n hj
    rw [hpc] at hj
    rw [hst]
    by_cases he : j = id
    · subst he
      rw [update_self] at hj
      exact hb n hj
    · rw [update_of_ne (by simpa using he)] at hj
      exact I.began hj
  · intro j n hj hw
    rw [hpc] at hj
    rw [hst, hpc, update_of_ne (by simp)]
    by_cases he : j = id
    · subst he
      rw [update_self] at hj
      exact absurd hw (hnew n hj)
    · rw [update_of_ne (by simpa using he)] at hj
      rcases hold j n he hj hw with hw | hlt
      · exact I.woken hj hw
      · exact Or.inl hlt

/-- A step of another thread. -/
theorem Inv.other (I : Inv s) (hpc : ∀ j, s'.pc (.prober j) = s.pc (.prober j)) (hst : s.stores ≤ s'.stores)
    (htr : Tracks s'.mon (holds s'.pc) (waits s'.pc))
    (hold : ∀ j n, s.pc (.prober j) = .blocked n → .prober j ∈ s'.mon.woken →
      n < s'.stores ∨ ExecPc.notified (s'.pc .backend) = true) : Inv s' := by
  refine ⟨htr, ?_, ?_⟩
  · intro j n hj
    rw [hpc] at hj
    exact Nat.le_trans (I.began hj) hst
  · intro j n hj hw
    rw [hpc] at hj
    exact hold j n hj hw

theorem prober_keeps {step : ProbeStep} (I : Inv s) (hsafe : WakesServed s (.probe id step))
    (h : glbBackendProbe s id step = some s') : Inv s' := by
  have same : ∀ j n, j ≠ id → s.pc (.prober j) = .blocked n → .prober j ∈ s.mon.woken →
      .prober j ∈ s.mon.woken ∨ n < s.stores := fun _ _ _ _ hw => Or.inl hw
  cases probe_cases h with
  | call hpc =>
    have htr := stay_tracks I.tracks (t := .prober id) (.called s.stores) (by rw [hpc]; rfl) (by rw [hpc]; rfl)
    exact I.probe rfl rfl htr (fun k hk => Nat.le_of_eq (Option.some.inj hk).symm) nofun same
  | @lock n mon hpc hm =>
    have htr := lock_tracks I.tracks hm (.locked n) rfl (by rw [hpc]; rfl)
    exact I.probe rfl rfl htr (fun k hk => I.began (by rw [hpc]; exact hk)) nofun
      (by rw [Monitor.lock_woken hm]; exact same)
  | @counted n hpc =>
    have htr := stay_tracks I.tracks (t := .prober id) (.counted n) (by rw [hpc]; rfl) (by rw [hpc]; rfl)
    exact I.probe rfl rfl htr (fun k hk => I.began (by rw [hpc]; exact hk)) nofun same
  | refused hpc =>
    have htr := stay_tracks I.tracks (t := .prober id) (.returning .zero) (by rw [hpc]; rfl) (by rw [hpc]; rfl)
    exact I.probe rfl rfl htr nofun nofun same
  | @signal n mon wakes hpc hm =>
    have htr := stay_tracks (I.tracks.signal hm).1 (t := .prober id) (.signalled n) (by rw [hpc]; rfl)
      (by rw [hpc]; rfl)
    refine I.probe rfl rfl htr (fun k hk => I.began (by rw [hpc]; exact hk)) nofun ?_
    intro j k _ hj hw
    rcases (Monitor.signal_woken hm).2.mp hw with rfl | hw
    · exact Or.inr (served_iff.mp hsafe k hj)
    · exact Or.inl hw
  | @wait n mon hpc hm =>
    have hout : pcWaits (.prober id) (s.pc (.prober id)) = false := by rw [hpc]; rfl
    have htr := wait_tracks I.tracks hm (.blocked n) hout rfl rfl
    refine I.probe rfl rfl htr (fun k hk => I.began (by rw [hpc]; exact hk)) ?_
      (by rw [Monitor.wait_woken hm]; exact same)
    intro k _
    rw [Monitor.wait_woken hm]
    exact not_blocked I.tracks hout
  | @timeout n mon hpc hm =>
    have htr := stay_tracks (I.tracks.signal hm).1 (t := .prober id) .expired (by rw [hpc]; rfl) (by rw [hpc]; rfl)
    refine I.probe rfl rfl htr nofun nofun ?_
    intro j k hne _ hw
    rcases (Monitor.signal_woken hm).2.mp hw with heq | hw
    · exact absurd heq (by simpa using Ne.symm hne)
    · exact Or.inl hw
  | @copied n mon hpc hm =>
    refine I.probe rfl rfl (resume_tracks I.tracks hm (.returning s.result) rfl rfl) nofun nofun ?_
    intro j k _ _ hw
    rw [(Monitor.resume_woken hm).2.2] at hw
    exact Or.inl (List.mem_of_mem_erase hw)
  | @expired mon hpc hm =>
    refine I.probe rfl rfl (resume_tracks I.tracks hm (.returning .zero) rfl rfl) nofun nofun ?_
    intro j k _ _ hw
    rw [(Monitor.resume_woken hm).2.2] at hw
    exact Or.inl (List.mem_of_mem_erase hw)
  | @unlock res mon hpc hm =>
    exact I.probe rfl rfl (unlock_tracks I.tracks hm .out rfl (by rw [hpc]; rfl)) nofun nofun
      (by rw [Monitor.unlock_woken hm]; exact same)

/-- A step of the backend thread that stores nothing and wakes no prober. -/
theorem Inv.exec {p : ExecPc} (I : Inv s) (hpc : s'.pc = update s.pc .backend p) (hst : s'.stores = s.stores)
    (htr : Tracks s'.mon (holds s'.pc) (waits s'.pc)) (hnot : ExecPc.notified (s.pc .backend) = false)
    (hw : ∀ j, .prober j ∈ s'.mon.woken → .prober j ∈ s.mon.woken) : Inv s' := by
  refine I.other (fun j => by rw [hpc, update_of_ne (by simp)]) (Nat.le_of_eq hst.symm) htr ?_
  intro j n hj hm
  rcases I.woken hj (hw j hm) with hlt | hn
  · exact Or.inl (hst ▸ hlt)
  · rw [hnot] at hn
    cases hn

/-- A step of the backend thread that stores a result. -/
theorem Inv.stored {p : ExecPc} (I : Inv s) (hpc : s'.pc = update s.pc .backend p)
    (hst : s'.stores = s.stores + 1) (htr : Tracks s'.mon (holds s'.pc) (waits s'.pc)) : Inv s' := by
  refine I.other (fun j => by rw [hpc, update_of_ne (by simp)]) (hst ▸ Nat.le_succ _) htr ?_
  intro j n hj _
  have hle : n ≤ s.stores := I.began (by rw [hj]; rfl)
  exact Or.inl (hst ▸ Nat.lt_succ_of_le hle)

/-- A step of a watchdog thread. -/
theorem Inv.watch {p : WatchPc} (I : Inv s) (hpc : s'.pc = update s.pc (.watchdog id) p)
    (hst : s'.stores = s.stores) (htr : Tracks s'.mon (holds s'.pc) (waits s'.pc))
    (hold : ∀ j n, s.pc (.prober j) = .blocked n → .prober j ∈ s'.mon.woken →
      .prober j ∈ s.mon.woken ∨ n < s.stores) : Inv s' := by
  refine I.other (fun j => by rw [hpc, update_of_ne (by simp)]) (Nat.le_of_eq hst.symm) htr ?_
  intro j n hj hw
  rw [hst, hpc, update_of_ne (by simp)]
  rcases hold j n hj hw with hw | hlt
  · exact I.woken hj hw
  · exact Or.inl hlt

theorem notify_tracks (h : Tracks s.mon (holds s.pc) (waits s.pc)) (hm : execNotify s wakes = some mon) :
    Tracks mon (holds s.pc) (waits s.pc) := by
  unfold execNotify at hm
  split at hm
  · exact Option.some.inj hm ▸ h
  · split at hm
    · exact (h.signal hm).1
    · exact Option.some.inj hm ▸ h.broadcast

theorem backend_keeps {step : ExecStep} (I : Inv s) (h : execThread s step = some s') : Inv s' := by
  cases exec_cases h with
  | leave hpc =>
    have htr := stay_tracks I.tracks (t := .backend) .leaving (by rw [hpc]; rfl) (by rw [hpc]; rfl)
    exact I.exec rfl rfl htr (by rw [hpc]; rfl) (fun _ hw => hw)
  | loop hpc hm =>
    have htr := unlock_tracks I.tracks hm .polling rfl (by rw [hpc]; rfl)
    exact I.exec rfl rfl htr (by rw [hpc]; rfl) (fun _ hw => Monitor.unlock_woken hm ▸ hw)
  | poll r errn hpc =>
    have htr := stay_tracks I.tracks (t := .backend) (.polled r errn) (by rw [hpc]; rfl) (by rw [hpc]; rfl)
    exact I.exec rfl rfl htr (by rw [hpc]; rfl) (fun _ hw => hw)
  | @lock r errn mon hpc hm =>
    have htr := lock_tracks I.tracks hm (.storing r errn) rfl (by rw [hpc]; rfl)
    exact I.exec rfl rfl htr (by rw [hpc]; rfl) (fun _ hw => Monitor.lock_woken hm ▸ hw)
  | @notify r errn wakes mon hpc hm =>
    have htr := stay_tracks (notify_tracks I.tracks hm) (t := .backend) (.notified r errn) (by rw [hpc]; rfl)
      (by rw [hpc]; rfl)
    exact I.other (fun j => by simp [Probing.goto]) (Nat.le_refl _) htr
      (fun _ _ _ _ => Or.inr (by simp [Probing.goto, ExecPc.notified]))
  | @store r errn hpc =>
    have htr := stay_tracks I.tracks (t := .backend) (.stored errn) (by rw [hpc]; rfl) (by rw [hpc]; rfl)
    exact I.stored rfl rfl htr
  | wait hpc hm =>
    have htr := wait_tracks I.tracks hm .sleeping (by rw [hpc]; rfl) rfl rfl
    exact I.exec rfl rfl htr (by rw [hpc]; rfl) (fun _ hw => Monitor.wait_woken hm ▸ hw)
  | failed hpc =>
    have htr := stay_tracks I.tracks (t := .backend) .leaving (by rw [hpc]; rfl) (by rw [hpc]; rfl)
    exact I.exec rfl rfl htr (by rw [hpc]; rfl) (fun _ hw => hw)
  | timeout hpc hm =>
    refine I.other (fun _ => rfl) (Nat.le_refl _) (I.tracks.signal hm).1 ?_
    intro j n hj hw
    rcases (Monitor.signal_woken hm).2.mp hw with heq | hw
    · cases heq
    · exact I.woken hj hw
  | wake hpc hm =>
    refine I.exec rfl rfl (resume_tracks I.tracks hm .testing rfl rfl) (by rw [hpc]; rfl) ?_
    intro j hw
    rw [(Monitor.resume_woken hm).2.2] at hw
    exact List.mem_of_mem_erase hw
  | clear hpc =>
    have htr := stay_tracks I.tracks (t := .backend) .cleared (by rw [hpc]; rfl) (by rw [hpc]; rfl)
    exact I.stored rfl rfl htr
  | unlock hpc hm =>
    have htr := unlock_tracks I.tracks hm .gone rfl (by rw [hpc]; rfl)
    exact I.exec rfl rfl htr (by rw [hpc]; rfl) (fun _ hw => Monitor.unlock_woken hm ▸ hw)

theorem watchdog_keeps {step : WatchStep} (I : Inv s) (hsafe : WakesServed s (.watch id step))
    (h : wdogThread s id step = some s') : Inv s' := by
  cases watch_cases h with
  | lock hpc hm =>
    exact I.watch rfl rfl (lock_tracks I.tracks hm .locked rfl rfl)
      (fun _ _ _ hw => Or.inl (Monitor.lock_woken hm ▸ hw))
  | take => exact I.other (fun _ => rfl) (Nat.le_refl _) I.tracks (fun _ _ hj hw => I.woken hj hw)
  | quit hpc =>
    have htr := stay_tracks I.tracks (t := .watchdog id) .quitting (by rw [hpc]; rfl) rfl
    exact I.watch rfl rfl htr (fun _ _ _ hw => Or.inl hw)
  | signal hpc hm =>
    have htr := stay_tracks (I.tracks.signal hm).1 (t := .watchdog id) .locked (by rw [hpc]; rfl) rfl
    refine I.watch rfl rfl htr ?_
    intro j n hj hw
    rcases (Monitor.signal_woken hm).2.mp hw with rfl | hw
    · exact Or.inr (served_iff.mp hsafe n hj)
    · exact Or.inl hw
  | unlock hpc hm =>
    exact I.watch rfl rfl (unlock_tracks I.tracks hm .out rfl rfl)
      (fun _ _ _ hw => Or.inl (Monitor.unlock_woken hm ▸ hw))

theorem step_keeps_probe (I : Inv s) (hsafe : WakesServed s op) (h : probeStep s op = some s') : Inv s' := by
  cases op with
  | probe id step => exact prober_keeps I hsafe h
  | exec step => exact backend_keeps I h
  | watch id step => exact watchdog_keeps I hsafe h

end keeps

/-- The lock is free when a prober copies the result, so the backend thread is not
between its signal and its store. -/
theorem Inv.fresh (I : Inv s) (op : ProbeOp) : Fresh s op := by
  cases op with
  | exec step => trivial
  | watch id step => trivial
  | probe id step =>
    cases step with
    | wake =>
      intro hsome
      obtain ⟨s', h⟩ := Option.isSome_iff_exists.mp hsome
      refine served_iff.mpr ?_
      intro n hpc
      cases probe_cases h with
      | copied _ hm =>
        obtain ⟨hfree, hwoken, _⟩ := Monitor.resume_woken hm
        rcases I.woken hpc hwoken with hlt | hn
        · exact hlt
        · have hh : holds s.pc .backend := by
            unfold holds pcHolds
            generalize s.pc .backend = p at hn
            cases p <;> first | rfl | cases hn
          rw [← I.tracks.owner, hfree] at hh
          cases hh
      | expired hpc' =>
        rw [hpc] at hpc'
        cases hpc'
    | _ => trivial

section stale

theorem not_served (h : ¬ Served s id) : ∃ n, s.pc (.prober id) = .blocked n ∧ s.stores ≤ n := by
  simp only [served_iff, not_forall, Nat.not_lt] at h
  obtain ⟨n, hpc, hle⟩ := h
  exact ⟨n, hpc, hle⟩

/-- A prober that was woken too early copies the old result as soon as a step has
freed the lock. -/
theorem wake_stale (h : probeStep s op = some s') (hpc : s'.pc (.prober id) = .blocked n)
    (hold : s'.stores ≤ n) (hfree : s'.mon.owner = none) (hwoken : .prober id ∈ s'.mon.woken) :
    ¬ Along probeStep Fresh s [op, .probe id .wake] := by
  intro ha
  have hsome : (glbBackendProbe s' id .wake).isSome = true := by
    simp [glbBackendProbe, hpc, Monitor.resume, hfree, hwoken]
  exact absurd (served_iff.mp ((ha.2 s' h).1 hsome) n hpc) (Nat.not_lt.mpr hold)

/-- A prober that signals wakes another one, and waits. -/
theorem probe_signal_stale (I : Inv s) (hs : ¬ Served s id)
    (h : glbBackendProbe s j (.signal (some (.prober id))) = some s') :
    ¬ Along probeStep Fresh s' [.probe j .wait, .probe id .wake] := by
  obtain ⟨n, hpc, hle⟩ := not_served hs
  cases probe_cases h with
  | @signal k mon _ hj hm =>
    have hne : id ≠ j := by
      rintro rfl
      rw [hpc] at hj
      cases hj
    obtain ⟨hown, hwoken⟩ := Monitor.signal_woken (u := .prober id) hm
    have howner : mon.owner = some (.prober j) := by
      rw [hown]
      exact I.tracks.owner.mpr (by rw [holds, hj]; rfl)
    have hwait : mon.wait (.prober j) =
        some { mon with owner := none, waiting := .prober j :: mon.waiting } := if_pos howner
    have hstep : probeStep { s.goto (.prober j) (.signalled k) with mon := mon } (.probe j .wait) =
        some { (s.goto (.prober j) (.signalled k)).goto (.prober j) (.blocked k) with
          mon := { mon with owner := none, waiting := .prober j :: mon.waiting } } := by
      simp only [probeStep, glbBackendProbe, Probing.goto, update_self, hwait]
      rfl
    refine wake_stale hstep ?_ hle rfl (hwoken.mpr (Or.inl rfl))
    simp [Probing.goto, hne, hpc]

/-- A watchdog thread that tells the backend thread to quit wakes a prober, and
unlocks. -/
theorem watch_signal_stale (I : Inv s) (hs : ¬ Served s id)
    (h : wdogThread s j (.signal (some (.prober id))) = some s') :
    ¬ Along probeStep Fresh s' [.watch j .unlock, .probe id .wake] := by
  obtain ⟨n, hpc, hle⟩ := not_served hs
  cases watch_cases h with
  | @signal _ mon hj hm =>
    obtain ⟨hown, hwoken⟩ := Monitor.signal_woken (u := .prober id) hm
    have howner : mon.owner = some (.watchdog j) := by
      rw [hown]
      exact I.tracks.owner.mpr (by rw [holds, hj]; rfl)
    have hunlock : mon.unlock (.watchdog j) = some { mon with owner := none } := if_pos howner
    have hstep : probeStep { s.goto (.watchdog j) .locked with mon := mon } (.watch j .unlock) =
        some { (s.goto (.watchdog j) .locked).goto (.watchdog j) .out with
          mon := { mon with owner := none } } := by
      simp only [probeStep, wdogThread, Probing.goto, update_self, hunlock]
      rfl
    refine wake_stale hstep ?_ hle rfl (hwoken.mpr (Or.inl rfl))
    simp [Probing.goto, hpc]

theorem unsafe_stale (I : Inv s) (hs : ¬ WakesServed s op) (h : probeStep s op = some s') :
    ∃ more, ¬ Along probeStep Fresh s' more := by
  cases op with
  | exec step => exact absurd trivial hs
  | probe j step =>
    cases step with
    | signal wakes =>
      match wakes with
      | some (.prober id) => exact ⟨_, probe_signal_stale I hs h⟩
      | some .backend => exact absurd trivial hs
      | some (.watchdog _) => exact absurd trivial hs
      | none => exact absurd trivial hs
    | _ => exact absurd trivial hs
  | watch j step =>
    cases step with
    | signal wakes =>
      match wakes with
      | some (.prober id) => exact ⟨_, watch_signal_stale I hs h⟩
      | some .backend => exact absurd trivial hs
      | some (.watchdog _) => exact absurd trivial hs
      | none => exact absurd trivial hs
    | _ => exact absurd trivial hs

end stale

/-- Every probe that does not time out copies a fresh result as long as the signals of
other probers and of the watchdog wake no prober that is still without one. After the
first signal that does, the scheduler can make that prober copy an old result. -/
theorem probe_fresh (ops : List ProbeOp) (hsafe : Along probeStep WakesServed .init ops) :
    Along probeStep Fresh .init ops ∧
    ∀ op s t, exec probeStep .init ops = some s → probeStep s op = some t → ¬ WakesServed s op →
      ∃ more, ¬ Along probeStep Fresh .init (ops ++ op :: more) := by
  have keep : ∀ s op s', Inv s → WakesServed s op → probeStep s op = some s' → Inv s' :=
    fun s op s' I hs h => step_keeps_probe I hs h
  refine ⟨along_keeps keep (fun s op I _ => I.fresh op) inv_init hsafe, ?_⟩
  intro op s t hs ht hns
  obtain ⟨more, hm⟩ := unsafe_stale (exec_keeps keep inv_init hsafe hs) hns ht
  exact ⟨more, not_along_after hs (fun ha => hm (ha.2 t ht))⟩

/-- The backend thread stores a READY result and goes to sleep. -/
def storesOnce : List ProbeOp :=
  [.exec .test, .exec (.poll ⟨.ready, 1, none, 0, true⟩ 0), .exec .lock, .exec (.notify none), .exec .store,
    .exec .wait]

/-- A prober wakes the backend thread and waits for it. -/
def asks : List ProbeOp :=
  [.probe 0 .call, .probe 0 .lock, .probe 0 .test, .probe 0 (.signal (some .backend)), .probe 0 .wait,
    .exec .wake, .exec .test]

/-- It is answered. -/
def answered : List ProbeOp :=
  storesOnce ++ asks ++ [.exec (.poll ⟨.notready, 1, none, 0, true⟩ 0), .exec .lock,
    .exec (.notify (some (.prober 0))), .exec .store, .exec .wait, .probe 0 .wake, .probe 0 .unlock]

theorem probe_fresh_answered :
    (exec probeStep .init answered).isSome = true ∧ Along probeStep WakesServed .init answered ∧
      Along probeStep Fresh .init answered :=
  ⟨by decide +kernel, by decide +kernel, (probe_fresh answered (by decide +kernel)).1⟩

/-- While the backend thread polls, another prober comes. -/
def secondProber : List ProbeOp :=
  storesOnce ++ asks ++ [.probe 1 .call, .probe 1 .lock, .probe 1 .test, .probe 1 (.signal (some (.prober 0))),
    .probe 1 .wait, .probe 0 .wake]

/-- While it polls, the watchdog tells it to quit. -/
def toldToQuit : List ProbeOp :=
  storesOnce ++ asks ++ [.watch 0 .lock, .watch 0 .quit, .watch 0 (.signal (some (.prober 0))),
    .watch 0 .unlock, .probe 0 .wake]

/-- Either way the prober returns with the result that was there before its call. -/
theorem probe_stale :
    ¬ Along probeStep Fresh .init secondProber ∧ ¬ Along probeStep Fresh .init toldToQuit ∧
      (exec probeStep .init secondProber).map (fun s => (s.pc (.prober 0), s.stores)) =
        some (.returning ⟨.ready, 1, none, 0, true⟩, 1) ∧
      (exec probeStep .init toldToQuit).map (fun s => (s.pc (.prober 0), s.stores)) =
        some (.returning ⟨.ready, 1, none, 0, true⟩, 1) :=
  ⟨by decide +kernel, by decide +kernel, by decide +kernel, by decide +kernel⟩

end Glb.Proofs.ProbeFresh
