import Glb.Proofs.HeldSlot
import Glb.RouterWriters

namespace Glb.Proofs.Writers
open Lib.Run Lib.SwapRemove Lib.Tally RouterFrame RouterCore RouterRun RouterTable HeldSlot

/-- What one step of the threads can be. -/
inductive WriterTurn (cnf : Cnf) (s : RouterWriters) : WriterOp → RouterWriters → Prop
  | waits {id : Nat} (hpc : s.writers[id]? = some .out) (hw : routerChangeWaits s.sys.router dst = true) :
    WriterTurn cnf s (.change id env moved dst ctx wake)
      ⟨{ s.sys with router := { s.sys.router with waitCount := s.sys.router.waitCount + 1 } },
        s.writers.set id (.blocked ⟨dst, ctx, s.lookup dst⟩)⟩
  | changes {id : Nat} (hpc : s.writers[id]? = some .out) (hw : routerChangeWaits s.sys.router dst = false)
    (h : s.returns id env moved wake (glbRouterChangeDst cnf env s.sys.router dst ctx).1 = some s') :
    WriterTurn cnf s (.change id env moved dst ctx wake) s'
  | sleeps {id : Nat} (hpc : s.writers[id]? = some (.woken call)) (hb : 0 < s.sys.router.busyCount) :
    WriterTurn cnf s (.resume id env moved wake) (s.goto id (.blocked call))
  | resumes {id : Nat} (hpc : s.writers[id]? = some (.woken call)) (hb : ¬ 0 < s.sys.router.busyCount)
    (ha : writerApply cnf s env { s.sys.router with waitCount := s.sys.router.waitCount - 1 } call = some r)
    (h : s.returns id env moved wake r = some s') : WriterTurn cnf s (.resume id env moved wake) s'
  | spurious {id : Nat} (hpc : s.writers[id]? = some (.blocked call)) :
    WriterTurn cnf s (.spurious id) (s.goto id (.woken call))
  | other (hop : op.changes = false) (hs : sysStep cnf s.sys op = some q)
    (h : RouterWriters.signalIf { s with sys := q }
      (connectLeft q op && q.router.busyCount = 0 && q.router.waitCount > 0) wake = some s') :
    WriterTurn cnf s (.other op wake) s'

variable {cnf : Cnf} {s s' : RouterWriters} {q q' : RouterSys} {r r' : Router} {id : Nat}
  {call : ChangeCall} {cond : Bool} {wake : Option Nat} {env : ChangeEnv} {dst : Dst} {ctx : Option CtxId}

theorem writer_turn (h : writersStep cnf s op = some s') : WriterTurn cnf s op s' := by
  cases op with
  | change id env moved dst ctx wake =>
    simp only [writersStep, writerChange] at h
    split at h
    · rename_i hpc
      split at h
      · rename_i hw
        obtain rfl := Option.some.inj h
        exact .waits hpc hw
      · rename_i hw
        exact .changes hpc (by simpa using hw) h
    · cases h
  | resume id env moved wake =>
    simp only [writersStep, writerResume] at h
    split at h
    · rename_i call hpc
      split at h
      · rename_i hb
        obtain rfl := Option.some.inj h
        exact .sleeps hpc hb
      · rename_i hb
        obtain ⟨r, ha, h⟩ := Option.bind_eq_some_iff.mp h
        exact .resumes hpc hb ha h
    · cases h
  | spurious id =>
    simp only [writersStep] at h
    split at h
    · rename_i call hpc
      obtain rfl := Option.some.inj h
      exact .spurious hpc
    · cases h
  | other op wake =>
    simp only [writersStep, writerOther] at h
    split at h
    · cases h
    · rename_i hop
      obtain ⟨q, hq, h⟩ := Option.bind_eq_some_iff.mp h
      exact .other (by simpa using hop) hq h

section signals

/-- Some thread is blocked on `router->free`. -/
def Blocked (s : RouterWriters) : Prop := ∃ (id : Nat) (call : ChangeCall), s.writers[id]? = some (.blocked call)

/-- Some thread was woken up and has not run yet. -/
def Woken (s : RouterWriters) : Prop := ∃ (id : Nat) (call : ChangeCall), s.writers[id]? = some (.woken call)

/-- The call that a thread is in. -/
def callOf : WriterPc → Option ChangeCall
  | .out => none
  | .blocked call => some call
  | .woken call => some call

/-- What a signal does if `cond` asks for one. -/
structure Signals (cond : Bool) (s s' : RouterWriters) : Prop where
  sys : s'.sys = s.sys
  calls : ∀ pc' ∈ s'.writers, ∃ pc ∈ s.writers, callOf pc = callOf pc'
  waits : s'.writers.countP WriterPc.waits = s.writers.countP WriterPc.waits
  blocked : Blocked s' → Blocked s
  woken : Woken s → Woken s'
  wakes : cond = true → Blocked s' → Woken s'

theorem wakes_up (hpc : s.writers[id]? = some (.blocked call)) (cond : Bool) :
    Signals cond s (s.goto id (.woken call)) := by
  have hwoken : Woken (s.goto id (.woken call)) := by
    refine ⟨id, call, ?_⟩
    obtain ⟨hid, _⟩ := List.getElem?_eq_some_iff.mp hpc
    simp [RouterWriters.goto, hid]
  refine ⟨rfl, ?_, ?_, ?_, fun _ => hwoken, fun _ _ => hwoken⟩
  · intro pc' hpc'
    rcases List.mem_or_eq_of_mem_set hpc' with hm | rfl
    · exact ⟨pc', hm, rfl⟩
    · exact ⟨_, List.mem_of_getElem? hpc, rfl⟩
  · have h := countP_set_int WriterPc.waits hpc (.woken call)
    simp only [WriterPc.waits, ↓reduceIte] at h
    simp only [RouterWriters.goto]
    omega
  · rintro ⟨j, c, hj⟩
    simp only [RouterWriters.goto, List.getElem?_set] at hj
    split at hj
    · split at hj <;> simp at hj
    · exact ⟨j, c, hj⟩

theorem signals_cases (h : s.signalIf cond wake = some s') : Signals cond s s' := by
  unfold RouterWriters.signalIf at h
  split at h
  · rename_i hc
    cases wake with
    | none =>
      simp only [RouterWriters.signal] at h
      split at h
      · cases h
      · rename_i hnone
        obtain rfl := Option.some.inj h
        refine ⟨rfl, fun pc h => ⟨pc, h, rfl⟩, rfl, fun hb => hb, fun hw => hw, ?_⟩
        rintro _ ⟨id, call, hpc⟩
        refine absurd ?_ hnone
        exact List.any_eq_true.mpr ⟨_, List.mem_of_getElem? hpc, rfl⟩
    | some id =>
      simp only [RouterWriters.signal] at h
      split at h
      · rename_i call hpc
        obtain rfl := Option.some.inj h
        exact wakes_up hpc cond
      · cases h
  · rename_i hc
    obtain rfl := Option.some.inj h
    exact ⟨rfl, fun pc h => ⟨pc, h, rfl⟩, rfl, fun hb => hb, fun hw => hw, fun h => absurd h hc⟩

end signals

section queue

/-- The protocol around `router->free`: the two counters count the threads that they
are meant to count, and with no thread connecting nobody sleeps alone. -/
structure Queue (s : RouterWriters) : Prop where
  busy : s.sys.router.busyCount = s.sys.threads.countP busyPc
  wait : s.sys.router.waitCount = s.writers.countP WriterPc.waits
  live : s.sys.router.busyCount = 0 → Blocked s → Woken s

theorem blocked_counted (hw : s.sys.router.waitCount = s.writers.countP WriterPc.waits) (hb : Blocked s) :
    0 < s.sys.router.waitCount := by
  obtain ⟨id, call, hpc⟩ := hb
  have hpos : 0 < s.writers.countP WriterPc.waits :=
    List.countP_pos_iff.mpr ⟨_, List.mem_of_getElem? hpc, rfl⟩
  omega

/-- The rule for a step that ends in front of a signal: those who sleep alone must
have made `cond` true. -/
theorem Signals.queue (h : Signals cond s s')
    (busy : s.sys.router.busyCount = s.sys.threads.countP busyPc)
    (wait : s.sys.router.waitCount = s.writers.countP WriterPc.waits)
    (live : s.sys.router.busyCount = 0 → 0 < s.sys.router.waitCount → cond = true ∨ (Blocked s → Woken s)) :
    Queue s' := by
  refine ⟨?_, ?_, ?_⟩
  · rw [h.sys]
    exact busy
  · rw [h.sys, h.waits]
    exact wait
  · intro hz hb
    rw [h.sys] at hz
    have hs := h.blocked hb
    rcases live hz (blocked_counted wait hs) with hc | hl
    · exact h.wakes hc hb
    · exact h.woken (hl hs)

theorem returns_signals (h : s.returns id env moved wake r = some s') :
    ∃ base, Signals (decide (0 < r.waitCount)) ⟨{ s.sys with router := r, base := base },
      s.writers.set id .out⟩ s' := ⟨_, signals_cases h⟩

theorem returns_queue (hb : r.busyCount = s.sys.threads.countP busyPc)
    (hw : r.waitCount = (s.writers.set id .out).countP WriterPc.waits)
    (h : s.returns id env moved wake r = some s') : Queue s' := by
  obtain ⟨base, hs⟩ := returns_signals h
  exact hs.queue hb hw (fun _ hpos => Or.inl (by simpa using hpos))

/-- What follows the wait leaves the counters alone, whatever `d` has become. -/
theorem apply_counters (cnf : Cnf) (env : ChangeEnv) (r : Router) (dst : Dst) (ctx : Option CtxId)
    (found : Option Nat) :
    (routerApplyChange cnf env r dst ctx found).1.busyCount = r.busyCount ∧
      (routerApplyChange cnf env r dst ctx found).1.waitCount = r.waitCount := by
  have hredo : ∀ q : Router, q.busyCount = r.busyCount → q.waitCount = r.waitCount →
      (routerRedo cnf env.now q).busyCount = r.busyCount ∧
        (routerRedo cnf env.now q).waitCount = r.waitCount := by
    intro q hb hw
    have hs := redo_same cnf env.now q
    exact ⟨hs.busy.trans hb, hs.wait.trans hw⟩
  unfold routerApplyChange
  cases found with
  | none =>
    simp only
    split
    · exact hredo _ rfl rfl
    · exact hredo _ rfl rfl
  | some i =>
    simp only
    cases r.dst[i]? with
    | none => exact ⟨rfl, rfl⟩
    | some d =>
      simp only
      split
      · exact hredo _ rfl rfl
      · split
        · exact hredo _ rfl rfl
        · exact ⟨rfl, rfl⟩

theorem writer_apply_counters (h : writerApply cnf s env r call = some r') :
    r'.busyCount = r.busyCount ∧ r'.waitCount = r.waitCount := by
  unfold writerApply at h
  split at h
  · exact Option.some.inj h ▸ apply_counters cnf env r call.dst call.probeCtx none
  · rename_i p _
    obtain ⟨_, _, rfl⟩ := Option.map_eq_some_iff.mp h
    exact apply_counters cnf env r call.dst call.probeCtx (some p.idx)

/-- A step of a thread that does not change the table. Either it keeps the count of
connecting threads, or one of them is left, or the step was the last of a call. -/
theorem other_step (hop : op.changes = false) (hb : q.router.busyCount = q.threads.countP busyPc)
    (h : sysStep cnf q op = some q') :
    labels q'.router = labels q.router ∧ q'.router.waitCount = q.router.waitCount ∧
      q'.router.busyCount = q'.threads.countP busyPc ∧
      (q'.router.busyCount = q.router.busyCount ∨ 0 < q'.router.busyCount ∨
        connectLeft q' op = true) := by
  have hpos : ∀ {p : RouterSys} {id : Nat} {pc}, p.router.busyCount = p.threads.countP busyPc →
      p.threads[id]? = some pc → busyPc pc = true → 0 < p.router.busyCount := by
    intro p id pc hp hpc hbusy
    have hc : 0 < p.threads.countP busyPc :=
      List.countP_pos_iff.mpr ⟨pc, List.mem_of_getElem? hpc, hbusy⟩
    omega
  have here : ∀ {id : Nat} {pc} (pc' : ConnectPc), q.threads[id]? = some pc →
      (q.threads.set id pc')[id]? = some pc' := by
    intro id pc pc' hpc
    obtain ⟨hid, _⟩ := List.getElem?_eq_some_iff.mp hpc
    simp [hid]
  cases turn_cases h with
  | waits _ _ => cases hop
  | changes _ _ => cases hop
  | sleeps _ => cases hop
  | wakes _ _ => cases hop
  | chooses hr =>
    have hs := choose_routed hr
    exact ⟨hs.labels, hs.wait, hs.busy.trans hb, Or.inl hs.busy⟩
  | @disconnects now a failed =>
    have hs := disconnect_routed cnf now q.router a failed
    exact ⟨hs.labels, hs.wait, hs.busy.trans hb, Or.inl hs.busy⟩
  | @again env now a hint r ret hr =>
    have hs := (disconnect_routed cnf now q.router a true).trans (choose_routed hr)
    exact ⟨hs.labels, hs.wait, hs.busy.trans hb, Or.inl hs.busy⟩
  | @starts pc env hint r i id hpc hi hr =>
    have hs := choose_routed hr
    have hbusy := goto_busy (r := r) hb hpc (.holding ⟨q.base, i⟩ hint (r.addrAt (some i)))
      (by rw [hs.busy, idle_presence hi]; simp [presence, busyPc, ConnectPc.idle])
    exact ⟨hs.labels, hs.wait, hbusy,
      Or.inr (Or.inl (hpos (p := q.hold id r hint i) hbusy (here _ hpc) rfl))⟩
  | @refused pc env hint r id hpc hi hr =>
    have hs := choose_routed hr
    refine ⟨hs.labels, hs.wait, goto_busy (r := routerConnectEnd r) hb hpc .out ?_, Or.inr (Or.inr ?_)⟩
    · simp only [routerConnectEnd, hs.busy, idle_presence hi]
      simp [presence, busyPc, ConnectPc.idle]
    · simp [connectLeft, RouterSys.goto, here _ hpc, ConnectPc.idle]
  | @dials p hint chose d id hpc hd =>
    refine ⟨rfl, rfl, goto_busy (r := q.router) hb hpc (.dialled p hint chose d.dst.addr) ?_, Or.inl rfl⟩
    simp [presence, busyPc, ConnectPc.idle]
  | @retries p hint chose peer d error now env r i id hpc hd he hr =>
    have hs := retry_routed hr
    have hbusy := goto_busy (r := r) hb hpc (.holding ⟨q.base, i⟩ hint (r.addrAt (some i)))
      (by rw [hs.busy]; simp [presence, busyPc, ConnectPc.idle])
    exact ⟨hs.labels, hs.wait, hbusy, Or.inl hs.busy⟩
  | @fails p hint chose peer d error now env r id hpc hd he hr =>
    have hs := retry_routed hr
    refine ⟨hs.labels, hs.wait, goto_busy (r := routerConnectEnd r) hb hpc .out ?_, Or.inr (Or.inr ?_)⟩
    · simp only [routerConnectEnd, hs.busy]
      simp [presence, busyPc, ConnectPc.idle]
    · simp [connectLeft, RouterSys.goto, here _ hpc, ConnectPc.idle]
  | @connects p hint chose peer d error now env id hpc hd he =>
    refine ⟨rfl, rfl, goto_busy (r := routerConnectEnd q.router) hb hpc (.done d.dst.addr peer) ?_,
      Or.inr (Or.inr ?_)⟩
    · simp [routerConnectEnd, presence, busyPc, ConnectPc.idle]
    · simp [connectLeft, RouterSys.goto, here _ hpc, ConnectPc.idle]

theorem queue_init (n m : Nat) : Queue (RouterWriters.init n m) := by
  refine ⟨(held_init n).busy, ?_, ?_⟩
  · simp [RouterWriters.init, RouterSys.init, Router.init, List.countP_replicate, WriterPc.waits]
  · rintro _ ⟨id, call, hpc⟩
    have ho := List.eq_of_mem_replicate (List.mem_of_getElem? hpc)
    cases ho

theorem queue_step (hq : Queue s) (h : writersStep cnf s op = some s') : Queue s' := by
  cases writer_turn h with
  | waits hpc hw =>
    have hbusy : 0 < s.sys.router.busyCount := by
      have hw' := hw
      simp only [routerChangeWaits, Bool.and_eq_true, decide_eq_true_eq] at hw'
      exact hw'.2
    refine ⟨hq.busy, ?_, ?_⟩
    · have hset := fun c => countP_set_int WriterPc.waits hpc (.blocked c)
      have hwait := hq.wait
      simp only [WriterPc.waits, ↓reduceIte, Bool.false_eq_true] at hset
      simp only [hset]
      omega
    · intro hz
      simp only at hz
      omega
  | changes hpc hw h =>
    refine returns_queue ((RouterCount.change_counters cnf _ _ _ _).1.trans hq.busy) ?_ h
    have hset := countP_set_int WriterPc.waits hpc .out
    have hwait := hq.wait
    simp only [WriterPc.waits, ↓reduceIte, Bool.false_eq_true] at hset
    rw [(RouterCount.change_counters cnf _ _ _ _).2]
    omega
  | sleeps hpc hb =>
    refine ⟨hq.busy, ?_, ?_⟩
    · have hset := fun c => countP_set_int WriterPc.waits hpc (.blocked c)
      have hwait := hq.wait
      simp only [WriterPc.waits, ↓reduceIte] at hset
      simp only [RouterWriters.goto, hset]
      omega
    · intro hz
      simp only [RouterWriters.goto] at hz
      omega
  | resumes hpc hb ha h =>
    obtain ⟨hbusy, hwait⟩ := writer_apply_counters ha
    refine returns_queue (hbusy.trans hq.busy) ?_ h
    have hset := countP_set_int WriterPc.waits hpc .out
    have hold := hq.wait
    simp only [WriterPc.waits, ↓reduceIte, Bool.false_eq_true] at hset
    simp only at hwait
    omega
  | spurious hpc => exact (wakes_up hpc true).queue hq.busy hq.wait (fun _ _ => Or.inl rfl)
  | other hop hs h =>
    obtain ⟨_, hwait, hbusy, hleft⟩ := other_step hop hq.busy hs
    refine (signals_cases h).queue hbusy (hwait.trans hq.wait) ?_
    intro hz hpos
    simp only at hz hpos
    rcases hleft with hsame | hbig | hl
    · exact Or.inr (hq.live (hsame.symm.trans hz))
    · omega
    · exact Or.inl (by simp [hl, hz, hpos])

end queue

/-- In every run of any threads that connect and that change the table, `wait_count`
counts those inside their wait, and if one of them is blocked and no thread is
connecting, another one has been woken up. -/
theorem no_writer_stranded (h : exec (writersStep cnf) (RouterWriters.init n m) ops = some s) :
    s.sys.router.waitCount = s.writers.countP WriterPc.waits ∧
    (s.sys.router.busyCount = 0 → ∀ (id : Nat) call, s.writers[id]? = some (.blocked call) →
      ∃ (id' : Nat) (call' : ChangeCall), id' ≠ id ∧ s.writers[id']? = some (.woken call')) := by
  have hq : Queue s := exec_invariant (fun _ _ _ => queue_step) (queue_init n m) h
  refine ⟨hq.wait, ?_⟩
  intro hz id call hpc
  obtain ⟨id', call', hpc'⟩ := hq.live hz ⟨id, call, hpc⟩
  refine ⟨id', call', ?_, hpc'⟩
  rintro rfl
  rw [hpc] at hpc'
  cases hpc'

/- What the concrete runs are made of: a first request that lists B, a thread that
connects to it, and requests that come in between. -/

def request (id : Nat) (addr : SockAddr) (weight : ℚ) : WriterOp :=
  .change id ⟨100, 100, true⟩ true ⟨addr, weight⟩ none none

def writersReached (cnf : Cnf) (n m : Nat) (ops : List WriterOp) : RouterWriters × List RouterOp :=
  (exec (returnStep cnf) (RouterWriters.init n m, []) ops).getD (RouterWriters.init n m, [])

/-- Two requests have to wait for the connecting thread, which wakes up the first. -/
def twoWaiting (op op' : WriterOp) : List WriterOp :=
  [request 0 serverB 1, .other (.connect 0 (chooseAt 100) 0) none, op, op', .other (.dial 0) none,
    .other (.connected 0 0 100 (chooseAt 100)) (some 0)]

def blockedReached (cnf : Cnf) (n m : Nat) (ops : List WriterOp) : RouterWriters :=
  (exec (writersStep cnf) (RouterWriters.init n m) ops).getD (RouterWriters.init n m)

theorem no_writer_stranded_two_waiting :
    (blockedReached roundRobin 1 2 (twoWaiting (request 0 serverA 1) (request 1 serverA 1))).writers.countP
      WriterPc.isBlocked = 1 ∧
    ∃ (id : Nat) (call : ChangeCall), id ≠ 1 ∧
      (blockedReached roundRobin 1 2 (twoWaiting (request 0 serverA 1) (request 1 serverA 1))).writers[id]? =
        some (.woken call) := by
  have hrun : exec (writersStep roundRobin) (RouterWriters.init 1 2)
      (twoWaiting (request 0 serverA 1) (request 1 serverA 1)) = some (blockedReached roundRobin 1 2
        (twoWaiting (request 0 serverA 1) (request 1 serverA 1))) := exec_getD _ (by decide +kernel)
  refine ⟨by decide +kernel, ?_⟩
  exact (no_writer_stranded hrun).2 (by decide +kernel) 1 ⟨⟨serverA, 1⟩, none, none⟩ (by decide +kernel)

section serial

theorem find_labels (r : Router) (dst : Dst) :
    routerFindDst r dst = (labels r).findIdx? (fun x => glbDstIsEqual x.1 dst) := by
  unfold routerFindDst labels
  rw [List.findIdx?_map]
  rfl

/-- What a call of `glb_router_change_dst` does to the labels. -/
def changeLabels (realloc : Bool) (l : List (Dst × Option CtxId)) (dst : Dst) (ctx : Option CtxId) :
    List (Dst × Option CtxId) :=
  match l.findIdx? (fun x => glbDstIsEqual x.1 dst) with
  | none => if dst.weight < 0 then l else if realloc then l ++ [(dst, ctx)] else l
  | some i =>
    if dst.weight < 0 then swapRemove l i
    else l.modify i (fun x => ({ x.1 with weight := dst.weight }, x.2))

theorem change_labels (cnf : Cnf) (env : ChangeEnv) (r : Router) (dst : Dst) (ctx : Option CtxId) :
    labels (glbRouterChangeDst cnf env r dst ctx).1 = changeLabels env.realloc (labels r) dst ctx := by
  rw [change_dst_eq]
  unfold changeLabels
  rw [← find_labels]
  cases he : routerEdit env r dst ctx with
  | none =>
    rcases edit_idle he with ⟨hf, hw⟩ | ⟨i, d, hf, hd, rfl, hw⟩
    · simp [hf, hw]
    · simp only [hf, hw, ↓reduceIte]
      apply List.ext_getElem?
      intro j
      rw [List.getElem?_modify]
      by_cases hj : i = j
      · subst hj
        simp [labels, hd, label]
      · simp [hj]
  | some q =>
    have hredo : labels (routerRedo cnf env.now q) = labels q :=
      (same_routed (redo_same cnf env.now q).core).labels
    simp only [hredo]
    cases edit_cases he with
    | added hf hw hm =>
      simp only [hf, hw, hm, ↓reduceIte]
      simp [labels, routerAddDst, label, routerNewDst]
    | noMemory hf hw hm => simp [hf, hw, hm]
    | removed hf hd ha hw =>
      simp only [hf, hw, ↓reduceIte]
      exact swapRemove_map label r.dst _
    | @weighed i d hf hd ha hw hne =>
      simp only [hf, hw, ↓reduceIte]
      apply List.ext_getElem?
      intro j
      simp only [labels, routerSetWeight, List.getElem?_map, List.getElem?_modify]
      cases r.dst[j]? with
      | none => rfl
      | some e => by_cases hj : i = j <;> simp [hj, label]

/-- A removal takes out what has the address, and nothing else. -/
theorem removed_labels (realloc : Bool) {l : List (Dst × Option CtxId)} (ctx : Option CtxId)
    (hn : (l.map (fun x => x.1.addr)).Nodup) (hw : dst.weight < 0) (x : Dst × Option CtxId) :
    x ∈ changeLabels realloc l dst ctx ↔ x ∈ l ∧ x.1.addr ≠ dst.addr := by
  unfold changeLabels
  cases hf : l.findIdx? (fun x => glbDstIsEqual x.1 dst) with
  | none =>
    simp only [hw, ↓reduceIte]
    refine ⟨fun hx => ⟨hx, ?_⟩, And.left⟩
    simpa [glbDstIsEqual, glbSockaddrIsEqual] using List.findIdx?_eq_none_iff.mp hf x hx
  | some i =>
    simp only [hw, ↓reduceIte]
    obtain ⟨hi, hp, _⟩ := List.findIdx?_eq_some_iff_getElem.mp hf
    have ha : l[i].1.addr = dst.addr := by simpa [glbDstIsEqual, glbSockaddrIsEqual] using hp
    have hperm := swapRemove_perm l i l[i] (List.getElem?_eq_getElem hi)
    have hn' := (hperm.map (fun x => x.1.addr)).nodup hn
    simp only [List.map_cons, List.nodup_cons, ha] at hn'
    rw [hperm.mem_iff, List.mem_cons]
    constructor
    · intro hx
      exact ⟨Or.inr hx, fun he => hn'.1 (he ▸ List.mem_map_of_mem hx)⟩
    · rintro ⟨rfl | hx, hne⟩
      · exact absurd ha hne
      · exact hx

/-- A thread that goes on after its wait would still find what it found before: the
same slot of the same array, or nothing. -/
def ResumeOk (s : RouterWriters) : WriterOp → Prop
  | .resume id _ _ _ =>
    match s.writers[id]? with
    | some (.woken call) => 0 < s.sys.router.busyCount ∨ s.lookup call.dst = call.found
    | _ => True
  | _ => True

/-- Only a call that has something to add or to remove waits. -/
def Asked (s : RouterWriters) : Prop :=
  ∀ pc ∈ s.writers, ∀ call, callOf pc = some call → ¬ (call.found = none ∧ call.dst.weight < 0)

theorem Asked.goto (h : Asked s) (pc : WriterPc)
    (hc : ∀ call, callOf pc = some call → ¬ (call.found = none ∧ call.dst.weight < 0))
    (hw : s'.writers = s.writers.set id pc) : Asked s' := by
  intro pc' hpc'
  rw [hw] at hpc'
  rcases List.mem_or_eq_of_mem_set hpc' with hm | rfl
  · exact h pc' hm
  · exact hc

theorem Signals.asked (h : Signals cond s s') (ha : Asked s) : Asked s' := by
  intro pc' hpc' call hc
  obtain ⟨pc, hpc, he⟩ := h.calls pc' hpc'
  exact ha pc hpc call (he.trans hc)

/-- Under the condition the rest of a call is the whole call as it would be made now. -/
theorem apply_now (hl : s.lookup call.dst = call.found) (hn : ¬ (call.found = none ∧ call.dst.weight < 0))
    (hr : labels r = labels s.sys.router) (h : writerApply cnf s env r call = some r') :
    r' = (glbRouterChangeDst cnf env r call.dst call.probeCtx).1 := by
  have hfind : routerFindDst r call.dst = call.found.map DstPtr.idx := by
    rw [← hl, find_labels, hr, ← find_labels, RouterWriters.lookup, Option.map_map]
    exact Option.map_id'.symm
  have hn' : ¬ (call.found.map DstPtr.idx = none ∧ call.dst.weight < 0) := by
    rintro ⟨hf, hw⟩
    exact hn ⟨by simpa using hf, hw⟩
  rw [← apply_change hfind hn']
  unfold writerApply at h
  split at h
  · rename_i hf
    rw [hf]
    exact (Option.some.inj h).symm
  · rename_i p hf
    obtain ⟨_, _, rfl⟩ := Option.map_eq_some_iff.mp h
    rw [hf]
    rfl

/-- Every step that returns from a call does to the table what the call does, and no
other step does anything to it. -/
theorem step_labels (hq : Queue s) (ha : Asked s) (hok : ResumeOk s op)
    (h : writersStep cnf s op = some s') :
    Asked s' ∧ ((finished s op = none ∧ labels s'.sys.router = labels s.sys.router) ∨
      ∃ env dst ctx, finished s op = some (.change env dst ctx) ∧
        labels s'.sys.router = changeLabels env.realloc (labels s.sys.router) dst ctx) := by
  have hleave : ∀ {id}, Asked { s with writers := s.writers.set id .out } :=
    ha.goto .out (fun _ hc => by cases hc) rfl
  cases writer_turn h with
  | @waits dst env moved ctx wake id hpc hw =>
    refine ⟨ha.goto (.blocked _) ?_ rfl, Or.inl ⟨by simp [finished, hw], rfl⟩⟩
    rintro _ ⟨⟩ ⟨hf, hneg⟩
    have hnone : routerFindDst s.sys.router dst = none := by simpa [RouterWriters.lookup] using hf
    simp [routerChangeWaits, hnone, hneg] at hw
  | @changes dst env moved wake ctx s' id hpc hw h =>
    obtain ⟨base, hs⟩ := returns_signals h
    refine ⟨hs.asked hleave, Or.inr ⟨env, dst, ctx, by simp [finished, hw], ?_⟩⟩
    rw [hs.sys]
    exact change_labels cnf env s.sys.router dst ctx
  | @sleeps call env moved wake id hpc hb =>
    exact ⟨ha.goto (.blocked _) (fun c hc => ha _ (List.mem_of_getElem? hpc) c hc) rfl,
      Or.inl ⟨by simp [finished, hpc, hb], rfl⟩⟩
  | @resumes call env r moved wake s' id hpc hb hr h =>
    obtain ⟨base, hs⟩ := returns_signals h
    have hfound : s.lookup call.dst = call.found := by
      simp only [ResumeOk, hpc] at hok
      exact hok.resolve_left hb
    have hnow := apply_now (r := { s.sys.router with waitCount := s.sys.router.waitCount - 1 }) hfound
      (ha _ (List.mem_of_getElem? hpc) call rfl) rfl hr
    refine ⟨hs.asked hleave, Or.inr ⟨env, call.dst, call.probeCtx, by simp [finished, hpc, hb], ?_⟩⟩
    rw [hs.sys, hnow]
    exact change_labels cnf env _ call.dst call.probeCtx
  | spurious hpc => exact ⟨(wakes_up hpc true).asked ha, Or.inl ⟨rfl, rfl⟩⟩
  | other hop hs h =>
    have hsig := signals_cases h
    obtain ⟨hlabels, _⟩ := other_step hop hq.busy hs
    refine ⟨hsig.asked ha, Or.inl ⟨rfl, ?_⟩⟩
    rw [hsig.sys]
    exact hlabels

/-- The table is the one that the calls leave which have returned, made one at a time
in the order of their return. -/
structure Serial (cnf : Cnf) (x : RouterWriters × List RouterOp) : Prop where
  queue : Queue x.1
  asked : Asked x.1
  calls : ∀ c ∈ x.2, isRouting c = false
  serial : ∃ r, exec (routerStep cnf) Router.init x.2 = some r ∧ labels r = labels x.1.sys.router

theorem serial_init (cnf : Cnf) (n m : Nat) : Serial cnf (RouterWriters.init n m, []) := by
  refine ⟨queue_init n m, ?_, by simp, Router.init, rfl, rfl⟩
  intro pc hpc call hc
  have ho := List.eq_of_mem_replicate hpc
  subst ho
  cases hc

theorem serial_step (h : Serial cnf x) (hok : ResumeOk x.1 op) (hstep : returnStep cnf x op = some x') :
    Serial cnf x' := by
  obtain ⟨s', hs, rfl⟩ := Option.map_eq_some_iff.mp hstep
  obtain ⟨ha, hl⟩ := step_labels h.queue h.asked hok hs
  obtain ⟨r, hr, hlr⟩ := h.serial
  rcases hl with ⟨hf, hl⟩ | ⟨env, dst, ctx, hf, hl⟩
  · simp only [hf, Option.toList_none, List.append_nil]
    exact ⟨queue_step h.queue hs, ha, h.calls, r, hr, hlr.trans hl.symm⟩
  · simp only [hf, Option.toList_some]
    refine ⟨queue_step h.queue hs, ha, ?_, (glbRouterChangeDst cnf env r dst ctx).1, ?_, ?_⟩
    · intro c hc
      rcases List.mem_append.mp hc with hc | hc
      · exact h.calls c hc
      · obtain rfl := List.mem_singleton.mp hc
        rfl
    · rw [exec_append, hr]
      rfl
    · rw [change_labels, hlr]
      exact hl.symm

theorem serial_unique (h : exec (routerStep cnf) Router.init calls = some r) :
    ((labels r).map (fun x => x.1.addr)).Nodup := by
  have hs : TableSound r := exec_invariant (fun _ _ _ => step_table_sound) sound_init h
  rw [← listing_labels]
  exact hs.unique

end serial

/-- In every run in which no search is outdated when its thread goes on, the table is
that of the returned calls made one at a time, no address is listed twice, and a
removal takes out the entry with its address and no other. -/
theorem changes_serializable
    (h : exec (returnStep cnf) (RouterWriters.init n m, []) ops = some (s, calls))
    (ha : Along (returnStep cnf) (fun x op => ResumeOk x.1 op) (RouterWriters.init n m, []) ops) :
    (∀ c ∈ calls, isRouting c = false) ∧
    (∃ r, exec (routerStep cnf) Router.init calls = some r ∧ labels r = labels s.sys.router) ∧
    ((labels s.sys.router).map (fun x => x.1.addr)).Nodup ∧
    ∀ op s' env dst ctx, ResumeOk s op → writersStep cnf s op = some s' →
      finished s op = some (.change env dst ctx) → dst.weight < 0 →
      ∀ x, x ∈ labels s'.sys.router ↔ x ∈ labels s.sys.router ∧ x.1.addr ≠ dst.addr := by
  have hser : Serial cnf (s, calls) := exec_keeps (fun _ _ _ => serial_step) (serial_init cnf n m) ha h
  obtain ⟨r, hr, hl⟩ := hser.serial
  have hn : ((labels s.sys.router).map (fun x => x.1.addr)).Nodup := hl ▸ serial_unique hr
  refine ⟨hser.calls, ⟨r, hr, hl⟩, hn, ?_⟩
  intro op s' env dst ctx hok hs hf hw x
  obtain ⟨_, ⟨hnone, _⟩ | ⟨env', dst', ctx', hf', hl'⟩⟩ := step_labels hser.queue hser.asked hok hs
  · rw [hf] at hnone
    cases hnone
  · obtain ⟨rfl, rfl, rfl⟩ : env = env' ∧ dst = dst' ∧ ctx = ctx' := by simpa [hf] using hf'
    rw [hl']
    exact removed_labels env.realloc ctx hn hw x

/-- A is to be listed and B to be removed. The array keeps its place when A is
appended. -/
def listAndRemove : List WriterOp :=
  twoWaiting (request 0 serverA 1) (request 1 serverB (-1)) ++
    [.resume 0 ⟨100, 100, true⟩ false (some 1), .resume 1 ⟨100, 100, true⟩ true none]

instance (s : RouterWriters) : (op : WriterOp) → Decidable (ResumeOk s op)
  | .change _ _ _ _ _ _ => .isTrue trivial
  | .resume id _ _ _ =>
    match h : s.writers[id]? with
    | some (.woken call) =>
      decidable_of_iff (0 < s.sys.router.busyCount ∨ s.lookup call.dst = call.found) (by simp [ResumeOk, h])
    | some .out => .isTrue (by simp [ResumeOk, h])
    | some (.blocked _) => .isTrue (by simp [ResumeOk, h])
    | none => .isTrue (by simp [ResumeOk, h])
  | .spurious _ | .other _ _ => .isTrue trivial

theorem changes_serializable_list_and_remove :
    labels (writersReached roundRobin 1 2 listAndRemove).1.sys.router = [(⟨serverA, 1⟩, none)] ∧
    ∃ r, exec (routerStep roundRobin) Router.init (writersReached roundRobin 1 2 listAndRemove).2 = some r ∧
      labels r = labels (writersReached roundRobin 1 2 listAndRemove).1.sys.router := by
  have hrun : exec (returnStep roundRobin) (RouterWriters.init 1 2, []) listAndRemove =
      some (writersReached roundRobin 1 2 listAndRemove) := exec_getD _ (by decide +kernel)
  have hser := changes_serializable hrun (by decide +kernel)
  exact ⟨by decide +kernel, hser.2.1⟩

/-- The same address is requested twice while a thread is connecting. Both searches
find nothing, both threads wait, and both add it. -/
def sameTwice : List WriterOp :=
  twoWaiting (request 0 serverA 1) (request 1 serverA 1) ++
    [.resume 0 ⟨100, 100, true⟩ true (some 1), .resume 1 ⟨100, 100, true⟩ true none]

theorem listed_twice_same_twice :
    ∃ s calls, exec (returnStep roundRobin) (RouterWriters.init 1 2, []) sameTwice = some (s, calls) ∧
      labels s.sys.router = [(⟨serverB, 1⟩, none), (⟨serverA, 1⟩, none), (⟨serverA, 1⟩, none)] ∧
      ∀ ops r, exec (routerStep roundRobin) Router.init ops = some r → labels r ≠ labels s.sys.router := by
  have hl : labels (writersReached roundRobin 1 2 sameTwice).1.sys.router =
      [(⟨serverB, 1⟩, none), (⟨serverA, 1⟩, none), (⟨serverA, 1⟩, none)] := by decide +kernel
  have hrun : exec (returnStep roundRobin) (RouterWriters.init 1 2, []) sameTwice =
      some (writersReached roundRobin 1 2 sameTwice) := exec_getD _ (by decide +kernel)
  refine ⟨(writersReached roundRobin 1 2 sameTwice).1, _, hrun, hl, ?_⟩
  intro ops r hr he
  have hn := serial_unique hr
  rw [he, hl] at hn
  exact absurd hn (by decide)

end Glb.Proofs.Writers
