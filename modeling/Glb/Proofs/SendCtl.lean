import Glb.CtlChannel
import Glb.Lib.Run

namespace Glb.Proofs.SendCtl
open Lib.Run Lib.CondVar

variable {c c' : Channel} {id id' t : Nat} {step : SendStep}

section fates

/-- What one step of `pool_send_ctl` comes to. -/
inductive SendFate (c : Channel) (id : Nat) : SendStep → Channel → Prop
  | call (ctl : PoolCtl) (hpc : c.senders id = .out) :
    SendFate c id (.call ctl) (c.goto id (.entered ctl))
  | lock {ctl mon} (hpc : c.senders id = .entered ctl) (hm : c.mon.lock (.sender id) = some mon) :
    SendFate c id .lock { c.goto id (.locked ctl) with mon := mon }
  | written {ctl} (hpc : c.senders id = .locked ctl) :
    SendFate c id (.write true) { c.goto id (.written (some c.tickets)) with
      pipe := c.pipe ++ [(c.tickets, ctl)], tickets := c.tickets + 1 }
  | failed {ctl} (hpc : c.senders id = .locked ctl) :
    SendFate c id (.write false) (c.goto id (.written none))
  | wait {ticket mon} (hpc : c.senders id = .written ticket)
    (hm : c.mon.wait (.sender id) = some mon) :
    SendFate c id .wait { c.goto id (.blocked ticket) with mon := mon }
  | wake {ticket mon} (hpc : c.senders id = .blocked ticket)
    (hm : c.mon.resume (.sender id) = some mon) :
    SendFate c id .wake { c.goto id (.returning ticket) with mon := mon }
  | unlock {ticket mon} (hpc : c.senders id = .returning ticket)
    (hm : c.mon.unlock (.sender id) = some mon) :
    SendFate c id .unlock { c.goto id .out with mon := mon }

theorem send_cases (h : poolSendCtl c id step = some c') : SendFate c id step c' := by
  unfold poolSendCtl at h
  split at h
  · rename_i hpc
    simp only [Option.some.injEq] at h
    exact h ▸ .call _ hpc
  · rename_i hpc
    obtain ⟨mon, hm, rfl⟩ := step_granted h
    exact .lock hpc hm
  · rename_i hpc
    simp only [Option.some.injEq] at h
    exact h ▸ .written hpc
  · rename_i hpc
    simp only [Option.some.injEq] at h
    exact h ▸ .failed hpc
  · rename_i hpc
    obtain ⟨mon, hm, rfl⟩ := step_granted h
    exact .wait hpc hm
  · rename_i hpc
    obtain ⟨mon, hm, rfl⟩ := step_granted h
    exact .wake hpc hm
  · rename_i hpc
    obtain ⟨mon, hm, rfl⟩ := step_granted h
    exact .unlock hpc hm
  · cases h

/-- What one step of `pool_handle_ctl` comes to. -/
inductive HandleFate (c : Channel) : HandleStep → Channel → Prop
  | read {ticket ctl pipe} (hpc : c.pool = .polling) (hp : c.pipe = (ticket, ctl) :: pipe) :
    HandleFate c .read { c with pool := .handling ticket ctl, pipe := pipe }
  | handle {ticket ctl} (hpc : c.pool = .handling ticket ctl) :
    HandleFate c .handle { c with pool := .handled ticket }
  | lock {ticket mon} (hpc : c.pool = .handled ticket) (hm : c.mon.lock .pool = some mon) :
    HandleFate c .lock { c with mon := mon, pool := .locked ticket }
  | signal {ticket mon wakes} (hpc : c.pool = .locked ticket) (hm : c.mon.signal wakes = some mon) :
    HandleFate c (.signal wakes) { c with mon := mon, pool := .signalled }
  | unlock {mon} (hpc : c.pool = .signalled) (hm : c.mon.unlock .pool = some mon) :
    HandleFate c .unlock { c with mon := mon, pool := .polling }

theorem handle_cases {step : HandleStep} (h : poolHandleCtlStep c step = some c') :
    HandleFate c step c' := by
  unfold poolHandleCtlStep at h
  split at h
  · rename_i hpc hp
    simp only [Option.some.injEq] at h
    exact h ▸ .read hpc hp
  · rename_i hpc
    simp only [Option.some.injEq] at h
    exact h ▸ .handle hpc
  · rename_i hpc
    obtain ⟨mon, hm, rfl⟩ := step_granted h
    exact .lock hpc hm
  · rename_i hpc
    obtain ⟨mon, hm, rfl⟩ := step_granted h
    exact .signal hpc hm
  · rename_i hpc
    obtain ⟨mon, hm, rfl⟩ := step_granted h
    exact .unlock hpc hm
  · cases h

end fates

/-- The sender is between lock and unlock. -/
def SendPc.holds : SendPc → Bool
  | .locked _ => true
  | .written _ => true
  | .returning _ => true
  | _ => false

def SendPc.waits : SendPc → Bool
  | .blocked _ => true
  | _ => false

def SendPc.ticket : SendPc → Option Nat
  | .written ticket => ticket
  | .blocked ticket => ticket
  | .returning ticket => ticket
  | _ => none

def HandlePc.holds : HandlePc → Bool
  | .locked _ => true
  | .signalled => true
  | _ => false

/-- The ctl whose sender the pool thread still has to signal. -/
def HandlePc.owes : HandlePc → List Nat
  | .handling ticket _ => [ticket]
  | .handled ticket => [ticket]
  | .locked ticket => [ticket]
  | _ => []

def holds (c : Channel) : CtlThread → Prop
  | .sender id => SendPc.holds (c.senders id) = true
  | .pool => HandlePc.holds c.pool = true

def waits (c : Channel) : CtlThread → Prop
  | .sender id => SendPc.waits (c.senders id) = true
  | .pool => False

/-- The ctls whose senders have not been signalled. -/
def unsignalled (c : Channel) : List Nat := HandlePc.owes c.pool ++ c.pipe.map Prod.fst

/-- The sender has done its write and was not signalled since. -/
def Pending (c : Channel) (id : Nat) : Prop :=
  (∃ ticket, c.senders id = .written ticket) ∨ .sender id ∈ c.mon.waiting

/-- No sender leaves while its ctl is in the pipe or being handled. -/
def Delivered (c : Channel) : Prop :=
  ∀ id t, c.senders id = .returning (some t) →
    t ∉ c.pipe.map Prod.fst ∧ ∀ ctl, c.pool ≠ .handling t ctl

/-- A sender takes the lock only while nobody is blocked on the condition. -/
def SoloOk (c : Channel) : ChannelOp → Prop
  | .send _ .lock => c.mon.waiting = []
  | _ => True

instance : (op : ChannelOp) → Decidable (SoloOk c op)
  | .send _ .lock => inferInstanceAs (Decidable (c.mon.waiting = []))
  | .send _ (.call _) | .send _ (.write _) | .send _ .wait | .send _ .wake | .send _ .unlock
  | .pool _ => .isTrue trivial

/-- One sender at a time waits for its ctl to be handled. -/
structure Solo (c : Channel) : Prop where
  tracks : Tracks c.mon (holds c) (waits c)
  alone : ∀ {id ctl}, c.senders id = .locked ctl → c.mon.waiting = []
  solo : ∀ {id id'}, Pending c id → Pending c id' → id = id'
  owed : ∀ {t}, t ∈ unsignalled c → ∃ id, Pending c id ∧ SendPc.ticket (c.senders id) = some t
  nodup : (unsignalled c).Nodup
  fresh : ∀ {id t}, SendPc.ticket (c.senders id) = some t → t < c.tickets
  unique : ∀ {id id' t}, SendPc.ticket (c.senders id) = some t →
    SendPc.ticket (c.senders id') = some t → id = id'

theorem solo_init : Solo Channel.init where
  tracks := tracks_free (fun t => by cases t <;> simp [holds, Channel.init, SendPc.holds, HandlePc.holds])
    (fun t => by cases t <;> simp [waits, Channel.init, SendPc.waits])
  alone := by simp [Channel.init]
  solo := by simp [Pending, Channel.init, Monitor.free]
  owed := by simp [unsignalled, Channel.init, HandlePc.owes]
  nodup := List.nodup_nil
  fresh := by simp [Channel.init, SendPc.ticket]
  unique := by simp [Channel.init, SendPc.ticket]

/-- A sender that leaves has been signalled, so its ctl is not owed any more. -/
theorem Solo.delivered (S : Solo c) : Delivered c := by
  intro id t hpc
  have hnot : t ∉ unsignalled c := by
    intro hm
    obtain ⟨id', hp, ht⟩ := S.owed hm
    have hid : id' = id := S.unique ht (by simp [hpc, SendPc.ticket])
    subst hid
    rcases hp with ⟨ticket, hw⟩ | hw
    · rw [hpc] at hw
      cases hw
    · have hb := S.tracks.waiting_blocked hw
      simp [waits, hpc, SendPc.waits] at hb
  simp only [unsignalled, List.mem_append, not_or] at hnot
  refine ⟨hnot.2, fun ctl hh => ?_⟩
  simp [hh, HandlePc.owes] at hnot

section senders

theorem goto_self (c : Channel) (id : Nat) (pc : SendPc) : (c.goto id pc).senders id = pc := by
  simp [Channel.goto]

theorem goto_other (c : Channel) (pc : SendPc) (h : id' ≠ id) :
    (c.goto id pc).senders id' = c.senders id' := by
  simp [Channel.goto, h]

theorem holds_other (c : Channel) (pc : SendPc) (u : CtlThread) (hu : u ≠ .sender id) :
    holds (c.goto id pc) u ↔ holds c u := by
  cases u with
  | pool => rfl
  | sender id' => rw [holds, holds, goto_other c pc fun he => hu (congrArg _ he)]

theorem waits_other (c : Channel) (pc : SendPc) (u : CtlThread) (hu : u ≠ .sender id) :
    waits (c.goto id pc) u ↔ waits c u := by
  cases u with
  | pool => rfl
  | sender id' => rw [waits, waits, goto_other c pc fun he => hu (congrArg _ he)]

/-- A sender with nothing pending moves on, and nobody else starts or stops to
wait. -/
theorem Solo.move {mon : Monitor CtlThread} {pc : SendPc} (S : Solo c) (hold : ¬ Pending c id)
    (hnew : ∀ ticket, pc ≠ .written ticket) (hmon : mon.waiting = c.mon.waiting)
    (htick : ∀ t, SendPc.ticket pc = some t → SendPc.ticket (c.senders id) = some t)
    (halone : ∀ ctl, pc = .locked ctl → c.mon.waiting = [])
    (htr : Tracks mon (holds (c.goto id pc)) (waits (c.goto id pc))) :
    Solo { c.goto id pc with mon := mon } := by
  have hpend : ∀ {id'}, Pending { c.goto id pc with mon := mon } id' ↔ Pending c id' := by
    intro id'
    by_cases he : id' = id
    · subst he
      refine ⟨fun hp => ?_, fun hp => absurd hp hold⟩
      rcases hp with ⟨ticket, hw⟩ | hw
      · exact absurd ((goto_self c id' pc).symm.trans hw) (hnew ticket)
      · exact Or.inr (hmon ▸ hw)
    · simp only [Pending, goto_other c pc he, hmon]
  have hticket : ∀ {id' t}, SendPc.ticket ((c.goto id pc).senders id') = some t →
      SendPc.ticket (c.senders id') = some t := by
    intro id' t ht
    by_cases he : id' = id
    · subst he
      rw [goto_self] at ht
      exact htick t ht
    · rwa [goto_other c pc he] at ht
  refine ⟨htr, ?_, ?_, ?_, S.nodup, ?_, ?_⟩
  · intro id' ctl hl
    rw [hmon]
    by_cases he : id' = id
    · subst he
      exact halone ctl ((goto_self c id' pc).symm.trans hl)
    · exact S.alone ((goto_other c pc he).symm.trans hl)
  · intro id1 id2 h1 h2
    exact S.solo (hpend.mp h1) (hpend.mp h2)
  · intro t ht
    obtain ⟨id', hp, htk⟩ := S.owed ht
    have he : id' ≠ id := fun he => hold (he ▸ hp)
    refine ⟨id', hpend.mpr hp, ?_⟩
    rw [goto_other c pc he]
    exact htk
  · intro id' t ht
    exact S.fresh (hticket ht)
  · intro id1 id2 t h1 h2
    exact S.unique (hticket h1) (hticket h2)

/-- Only a sender that has written or is blocked can be pending. -/
theorem Solo.not_pending (S : Solo c) (hw : ∀ x, c.senders id ≠ .written x)
    (hb : SendPc.waits (c.senders id) = false) : ¬ Pending c id := by
  intro hp
  rcases hp with ⟨x, hx⟩ | hm
  · exact hw x hx
  · have hwaits := S.tracks.waiting_blocked hm
    simp [waits, hb] at hwaits

/-- The only sender inside the lock, with nobody blocked, has nothing to wait for
but its own write. -/
theorem Solo.no_pending (S : Solo c) (hpc : c.senders id = .locked ctl) : ¬ Pending c id' := by
  intro hp
  rcases hp with ⟨ticket, hw⟩ | hw
  · have hid := S.tracks.excl (t := .sender id') (u := .sender id) (by simp [holds, hw, SendPc.holds])
      (by simp [holds, hpc, SendPc.holds])
    rw [CtlThread.sender.injEq] at hid
    rw [hid, hpc] at hw
    cases hw
  · rw [S.alone hpc] at hw
    cases hw

theorem Solo.nothing_owed (S : Solo c) (hpc : c.senders id = .locked ctl) : unsignalled c = [] := by
  apply List.eq_nil_iff_forall_not_mem.mpr
  intro t ht
  obtain ⟨id', hp, _⟩ := S.owed ht
  exact S.no_pending hpc hp

theorem Solo.write (S : Solo c) (hpc : c.senders id = .locked ctl) (l : List (Nat × PoolCtl))
    (n : Nat) (ticket : Option Nat) (hn : c.tickets ≤ n)
    (hl : l.map Prod.fst = ticket.toList) (ht : ∀ t, ticket = some t → c.tickets ≤ t ∧ t < n) :
    Solo { c.goto id (.written ticket) with pipe := c.pipe ++ l, tickets := n } := by
  have hempty := S.nothing_owed hpc
  have hown : unsignalled { c.goto id (.written ticket) with pipe := c.pipe ++ l, tickets := n } =
      ticket.toList := by
    have hlist : HandlePc.owes c.pool ++ (c.pipe ++ l).map Prod.fst = unsignalled c ++ l.map Prod.fst := by
      simp [unsignalled]
    exact hlist.trans (by rw [hempty, hl, List.nil_append])
  have hpend : ∀ {id'}, Pending { c.goto id (.written ticket) with
      pipe := c.pipe ++ l, tickets := n } id' ↔ id' = id := by
    intro id'
    constructor
    · intro hp
      by_contra he
      have hp' : Pending c id' := by
        rcases hp with ⟨x, hw⟩ | hw
        · exact Or.inl ⟨x, (goto_other c _ he).symm.trans hw⟩
        · exact Or.inr hw
      exact S.no_pending hpc hp'
    · intro he
      subst he
      exact Or.inl ⟨ticket, goto_self c id' _⟩
  have hother : ∀ {id' t}, SendPc.ticket ((c.goto id (.written ticket)).senders id') = some t →
      (id' = id ∧ ticket = some t) ∨ (id' ≠ id ∧ SendPc.ticket (c.senders id') = some t) := by
    intro id' t h
    by_cases he : id' = id
    · subst he
      rw [goto_self] at h
      exact Or.inl ⟨rfl, h⟩
    · rw [goto_other c _ he] at h
      exact Or.inr ⟨he, h⟩
  refine ⟨?_, ?_, ?_, ?_, ?_, ?_, ?_⟩
  · refine S.tracks.mono (moved_stays (holds_other c (.written ticket)) ?_)
      (moved_stays (waits_other c (.written ticket)) ?_)
    · simp [holds, goto_self, hpc, SendPc.holds]
    · simp [waits, goto_self, hpc, SendPc.waits]
  · intro id' ctl' hl'
    exact S.alone hpc
  · intro id1 id2 h1 h2
    rw [hpend.mp h1, hpend.mp h2]
  · intro t hm
    rw [hown, Option.mem_toList] at hm
    exact ⟨id, hpend.mpr rfl, by rw [goto_self]; exact hm⟩
  · rw [hown]
    cases ticket <;> simp
  · intro id' t h
    rcases hother h with ⟨_, hx⟩ | ⟨_, hx⟩
    · exact (ht t hx).2
    · exact Nat.lt_of_lt_of_le (S.fresh hx) hn
  · intro id1 id2 t h1 h2
    rcases hother h1 with ⟨rfl, hx1⟩ | ⟨hne1, hx1⟩ <;> rcases hother h2 with ⟨rfl, hx2⟩ | ⟨hne2, hx2⟩
    · rfl
    · exact absurd (S.fresh hx2) (Nat.not_lt.mpr (ht t hx1).1)
    · exact absurd (S.fresh hx1) (Nat.not_lt.mpr (ht t hx2).1)
    · exact S.unique hx1 hx2

theorem Solo.wait {mon : Monitor CtlThread} (S : Solo c) (hpc : c.senders id = .written ticket)
    (hm : c.mon.wait (.sender id) = some mon) :
    Solo { c.goto id (.blocked ticket) with mon := mon } := by
  obtain ⟨htr, hwait⟩ := S.tracks.wait hm (by simp [waits, hpc, SendPc.waits])
    (moved_leaves (holds_other c (.blocked ticket)) (by simp [holds, goto_self, SendPc.holds]))
    (moved_enters (waits_other c (.blocked ticket)) (by simp [waits, goto_self, SendPc.waits]))
  have hpend : ∀ {id'}, Pending { c.goto id (.blocked ticket) with mon := mon } id' ↔ Pending c id' := by
    intro id'
    by_cases he : id' = id
    · subst he
      exact ⟨fun _ => Or.inl ⟨ticket, hpc⟩, fun _ => Or.inr (by simp [hwait])⟩
    · have hs : CtlThread.sender id' ≠ .sender id := by simpa using he
      simp only [Pending, goto_other c _ he, hwait, List.mem_cons, hs, false_or]
  have hticket : ∀ {id'}, SendPc.ticket ((c.goto id (.blocked ticket)).senders id') =
      SendPc.ticket (c.senders id') := by
    intro id'
    by_cases he : id' = id
    · subst he
      rw [goto_self, hpc]
      rfl
    · rw [goto_other c _ he]
  refine ⟨htr, ?_, ?_, ?_, S.nodup, ?_, ?_⟩
  · intro id' ctl hl
    have he : id' ≠ id := by
      intro he
      subst he
      have hb := (goto_self c id' _).symm.trans hl
      cases hb
    have hlocked := (goto_other c _ he).symm.trans hl
    exact absurd (Or.inl ⟨ticket, hpc⟩) (S.no_pending hlocked)
  · intro id1 id2 h1 h2
    exact S.solo (hpend.mp h1) (hpend.mp h2)
  · intro t hm
    obtain ⟨id', hp, ht⟩ := S.owed hm
    exact ⟨id', hpend.mpr hp, hticket.trans ht⟩
  · intro id' t ht
    exact S.fresh (hticket.symm.trans ht)
  · intro id1 id2 t h1 h2
    exact S.unique (hticket.symm.trans h1) (hticket.symm.trans h2)

end senders

section pool

theorem pool_other (c : Channel) (pc : HandlePc) (u : CtlThread) (hu : u ≠ .pool) :
    holds { c with pool := pc } u ↔ holds c u := by
  cases u with
  | pool => exact absurd rfl hu
  | sender id => rfl

/-- The pool thread moves on without signalling anybody. -/
theorem Solo.turn {mon : Monitor CtlThread} (S : Solo c)
    (hmon : mon.waiting = c.mon.waiting)
    (howed : HandlePc.owes pc ++ pipe.map Prod.fst = unsignalled c)
    (htr : Tracks mon (holds { c with pool := pc }) (waits c)) :
    Solo { c with mon := mon, pool := pc, pipe := pipe } := by
  have hpend : ∀ {id'}, Pending { c with mon := mon, pool := pc, pipe := pipe } id' ↔
      Pending c id' := by
    intro id'
    simp only [Pending, hmon]
  refine ⟨htr, ?_, ?_, ?_, ?_, S.fresh, S.unique⟩
  · intro id' ctl hl
    exact hmon.trans (S.alone hl)
  · intro id1 id2 h1 h2
    exact S.solo (hpend.mp h1) (hpend.mp h2)
  · intro t ht
    have ht' : t ∈ unsignalled c := howed ▸ ht
    obtain ⟨id', hp, htk⟩ := S.owed ht'
    exact ⟨id', hpend.mpr hp, htk⟩
  · exact (howed ▸ S.nodup : (HandlePc.owes pc ++ pipe.map Prod.fst).Nodup)

/-- While the pool thread has the lock, the sender it owes a signal is blocked. -/
theorem Solo.owed_waits (S : Solo c) (hpc : c.pool = .locked ticket) (ht : t ∈ unsignalled c) :
    ∃ id, .sender id ∈ c.mon.waiting ∧ SendPc.ticket (c.senders id) = some t := by
  obtain ⟨id, hp, htk⟩ := S.owed ht
  refine ⟨id, ?_, htk⟩
  rcases hp with ⟨x, hw⟩ | hw
  · have hid := S.tracks.excl (t := .sender id) (u := .pool) (by simp [holds, hw, SendPc.holds])
      (by simp [holds, hpc, HandlePc.holds])
    cases hid
  · exact hw

/-- With one sender pending the signal reaches the one it is for. -/
theorem Solo.signal {mon : Monitor CtlThread} (S : Solo c) (hpc : c.pool = .locked ticket)
    (hm : c.mon.signal wakes = some mon) : Solo { c with mon := mon, pool := .signalled } := by
  obtain ⟨htr, hw⟩ := S.tracks.signal hm
  have hlist : unsignalled c = ticket :: c.pipe.map Prod.fst := by simp [unsignalled, hpc, HandlePc.owes]
  obtain ⟨p, hp, htp⟩ := S.owed_waits hpc (t := ticket) (by simp [hlist])
  have only : ∀ {u}, u ∈ c.mon.waiting → u = .sender p := by
    intro u hu
    cases u with
    | pool => exact absurd (S.tracks.waiting_blocked hu) id
    | sender id => rw [S.solo (Or.inr hu) (Or.inr hp)]
  -- nobody is left waiting
  have hnone : mon.waiting = [] := by
    rcases hw with ⟨_, _, hnil⟩ | ⟨u, _, hu, herase⟩
    · exact hnil
    · have hn : c.mon.waiting.Nodup := (List.nodup_append.mp S.tracks.nodup).1
      apply List.eq_nil_iff_forall_not_mem.mpr
      intro x hx
      rw [herase, hn.mem_erase_iff] at hx
      exact hx.1 ((only hx.2).trans (only hu).symm)
  -- and nothing is left in the pipe
  have hpipe : c.pipe.map Prod.fst = [] := by
    have hn := S.nodup
    rw [hlist, List.nodup_cons] at hn
    apply List.eq_nil_iff_forall_not_mem.mpr
    intro x hx
    obtain ⟨id, hid, htx⟩ := S.owed_waits hpc (t := x) (by simp [hlist, hx])
    have he : id = p := by simpa using only hid
    rw [he, htp, Option.some.injEq] at htx
    exact hn.1 (htx ▸ hx)
  have hpend : ∀ {id}, ¬ Pending { c with mon := mon, pool := .signalled } id := by
    intro id hpd
    rcases hpd with ⟨x, hwr⟩ | hwt
    · have hpc' : c.senders id = .written x := hwr
      have hb := S.tracks.waiting_blocked hp
      rw [← S.solo (Or.inl ⟨x, hpc'⟩) (Or.inr hp)] at hb
      simp [waits, hpc', SendPc.waits] at hb
    · simp [hnone] at hwt
  have hempty : unsignalled { c with mon := mon, pool := .signalled } = [] := by
    simp [unsignalled, HandlePc.owes, hpipe]
  refine ⟨?_, fun _ => hnone, fun h1 => absurd h1 hpend, ?_, ?_, S.fresh, S.unique⟩
  · exact htr.mono (moved_stays (pool_other c _) (by simp [holds, hpc, HandlePc.holds])) (fun _ => Iff.rfl)
  · intro t ht
    rw [hempty] at ht
    cases ht
  · rw [hempty]
    exact List.nodup_nil

end pool

theorem solo_send (S : Solo c) (hok : SoloOk c (.send id step)) (h : SendFate c id step c') :
    Solo c' := by
  cases h with
  | call ctl hpc =>
    refine S.move ?_ (by simp) rfl (by simp [SendPc.ticket]) (by simp) ?_
    · exact S.not_pending (by simp [hpc]) (by simp [hpc, SendPc.waits])
    · refine S.tracks.mono (moved_stays (holds_other c _) ?_) (moved_stays (waits_other c _) ?_)
      · simp [holds, goto_self, hpc, SendPc.holds]
      · simp [waits, goto_self, hpc, SendPc.waits]
  | @lock ctl mon hpc hm =>
    have hwaits : ∀ u, waits (c.goto id (.locked ctl)) u ↔ waits c u :=
      moved_stays (waits_other c _) (by simp [waits, goto_self, hpc, SendPc.waits])
    obtain ⟨htr, hmon⟩ := S.tracks.lock hm
      (moved_enters (holds_other c (.locked ctl)) (by simp [holds, goto_self, SendPc.holds])) hwaits
    refine S.move ?_ (by simp) hmon (by simp [SendPc.ticket]) (fun _ _ => hok) htr
    exact S.not_pending (by simp [hpc]) (by simp [hpc, SendPc.waits])
  | @written ctl hpc =>
    exact S.write hpc [(c.tickets, ctl)] (c.tickets + 1) (some c.tickets) (by omega) rfl
      (by simp)
  | failed hpc =>
    have hs := S.write hpc [] c.tickets none (Nat.le_refl _) rfl (by simp)
    rw [List.append_nil] at hs
    exact hs
  | wait hpc hm => exact S.wait hpc hm
  | @wake ticket mon hpc hm =>
    obtain ⟨htr, hmon, hnot⟩ := S.tracks.resume hm
      (moved_enters (holds_other c (.returning ticket)) (by simp [holds, goto_self, SendPc.holds]))
      (moved_leaves (waits_other c (.returning ticket)) (by simp [waits, goto_self, SendPc.waits]))
    refine S.move ?_ (by simp) hmon (by simp [hpc, SendPc.ticket]) (by simp) htr
    rintro (⟨x, hx⟩ | hw)
    · rw [hpc] at hx
      cases hx
    · exact hnot hw
  | @unlock ticket mon hpc hm =>
    have hwaits : ∀ u, waits (c.goto id .out) u ↔ waits c u :=
      moved_stays (waits_other c _) (by simp [waits, goto_self, hpc, SendPc.waits])
    obtain ⟨htr, hmon⟩ := S.tracks.unlock hm
      (moved_leaves (holds_other c .out) (by simp [holds, goto_self, SendPc.holds])) hwaits
    refine S.move ?_ (by simp) hmon (by simp [SendPc.ticket]) (by simp) htr
    exact S.not_pending (by simp [hpc]) (by simp [hpc, SendPc.waits])

theorem solo_handle (S : Solo c) {step : HandleStep} (h : HandleFate c step c') : Solo c' := by
  cases h with
  | @read ticket ctl pipe hpc hp =>
    refine S.turn rfl ?_ (S.tracks.mono (moved_stays (pool_other c _) ?_) (fun _ => Iff.rfl))
    · simp [unsignalled, hpc, hp, HandlePc.owes]
    · simp [holds, hpc, HandlePc.holds]
  | handle hpc =>
    refine S.turn rfl ?_ (S.tracks.mono (moved_stays (pool_other c _) ?_) (fun _ => Iff.rfl))
    · simp [unsignalled, hpc, HandlePc.owes]
    · simp [holds, hpc, HandlePc.holds]
  | @lock ticket mon hpc hm =>
    obtain ⟨htr, hmon⟩ := S.tracks.lock hm
      (moved_enters (pool_other c (.locked ticket)) (by simp [holds, HandlePc.holds])) (fun _ => Iff.rfl)
    exact S.turn hmon (by simp [unsignalled, hpc, HandlePc.owes]) htr
  | signal hpc hm => exact S.signal hpc hm
  | @unlock mon hpc hm =>
    obtain ⟨htr, hmon⟩ := S.tracks.unlock hm
      (moved_leaves (pool_other c .polling) (by simp [holds, HandlePc.holds])) (fun _ => Iff.rfl)
    exact S.turn hmon (by simp [unsignalled, hpc, HandlePc.owes]) htr

/-- One step keeps to one sender at a time. -/
theorem solo_step (S : Solo c) (hok : SoloOk c op) (h : channelStep c op = some c') : Solo c' := by
  cases op with
  | send id step => exact solo_send S hok (send_cases h)
  | pool step => exact solo_handle S (handle_cases h)

/-- In every run in which a sender takes the lock only while nobody is blocked on
the condition, no sender leaves before its own ctl was handled. -/
theorem ctl_delivered (hrun : exec channelStep .init ops = some c)
    (hok : Along channelStep SoloOk .init ops) : Delivered c :=
  (exec_keeps (fun _ _ _ => solo_step) solo_init hok hrun).delivered

/-- What a sender does up to the point where it blocks. -/
def sends (id : Nat) (ctl : PoolCtl) : List ChannelOp :=
  [.send id (.call ctl), .send id .lock, .send id (.write true), .send id .wait]

/-- The pool handles one ctl and wakes the sender `id`; that sender returns from
its wait. -/
def handlesOne (id : Nat) : List ChannelOp :=
  [.pool .read, .pool .handle, .pool .lock, .pool (.signal (some (.sender id))), .pool .unlock,
    .send id .wake]

def channelAfter (ops : List ChannelOp) : Channel := (exec channelStep .init ops).getD .init

theorem channel_after (ops : List ChannelOp) (h : (exec channelStep .init ops).isSome) :
    exec channelStep .init ops = some (channelAfter ops) := by
  obtain ⟨c, hc⟩ := Option.isSome_iff_exists.mp h
  simp [channelAfter, hc]

/-- The second sender comes while the first is blocked, and takes the lock once that one
was signalled and before it has returned. -/
def overlapping : List ChannelOp :=
  sends 0 (.addConn 0) ++
    [.send 1 (.call .stats), .pool .read, .pool .handle, .pool .lock, .pool (.signal (some (.sender 0))),
      .pool .unlock, .send 1 .lock, .send 1 (.write true), .send 1 .wait, .send 0 .wake, .send 0 .unlock] ++
    handlesOne 1

/-- Each of the two returns after its own ctl was handled. -/
theorem ctl_delivered_overlapping :
    Delivered (channelAfter overlapping) ∧ (channelAfter overlapping).senders 0 = .out ∧
      (channelAfter overlapping).senders 1 = .returning (some 1) := by
  refine ⟨ctl_delivered (channel_after _ (by decide +kernel)) ?_, ?_, ?_⟩
  · decide +kernel
  · decide +kernel
  · decide +kernel

/-- Two senders wait; the signal for the first ctl wakes the second sender, which
leaves while its ctl is in the pipe. -/
def crossed : List ChannelOp := sends 0 (.addConn 0) ++ sends 1 .stats ++ handlesOne 1

theorem ctl_undelivered_crossed :
    exec channelStep .init crossed = some (channelAfter crossed) ∧ ¬ Delivered (channelAfter crossed) := by
  refine ⟨channel_after crossed (by decide +kernel), fun h => ?_⟩
  have hpc : (channelAfter crossed).senders 1 = .returning (some 1) := by decide +kernel
  have hpipe : 1 ∈ (channelAfter crossed).pipe.map Prod.fst := by decide +kernel
  exact (h 1 1 hpc).1 hpipe

end Glb.Proofs.SendCtl
