import Glb.Proofs.RouterCount
import Glb.RouterThreads

namespace Glb.Proofs.HeldSlot
open Function Lib.Keyed Lib.Run Lib.SwapRemove Lib.Tally RouterFrame RouterCore RouterRun RouterTable

/-- What one step of the threads can be. -/
inductive SysTurn (cnf : Cnf) (s : RouterSys) : SysOp → RouterSys → Prop
  | waits (hc : s.changer = .out) (hw : routerChangeWaits s.router dst = true) :
    SysTurn cnf s (.change env dst ctx)
      { s with
        router := { s.router with waitCount := s.router.waitCount + 1 }
        changer := .waiting dst ctx (routerFindDst s.router dst) }
  | changes (hc : s.changer = .out) (hw : routerChangeWaits s.router dst = false) :
    SysTurn cnf s (.change env dst ctx) (s.changed env (glbRouterChangeDst cnf env s.router dst ctx).1)
  | sleeps (hb : 0 < s.router.busyCount) : SysTurn cnf s (.wake env) s
  | wakes (hc : s.changer = .waiting dst ctx found) (hb : ¬ 0 < s.router.busyCount) :
    SysTurn cnf s (.wake env) (s.changed env
      (routerApplyChange cnf env { s.router with waitCount := s.router.waitCount - 1 } dst ctx found).1)
  | chooses (h : routerChooseDst cnf env s.router hint = (r, ret)) :
    SysTurn cnf s (.choose env hint) { s with router := r }
  | disconnects : SysTurn cnf s (.disconnect now a failed)
      { s with router := glbRouterDisconnect cnf now s.router a failed }
  | again (h : routerChooseDst cnf env (glbRouterDisconnect cnf now s.router a true) hint = (r, ret)) :
    SysTurn cnf s (.chooseAgain now env hint a) { s with router := r }
  | starts {id : Nat} (hpc : s.threads[id]? = some pc) (hi : pc.idle = true)
    (h : routerConnectStart cnf env s.router hint = (r, some i)) :
    SysTurn cnf s (.connect id env hint) (s.hold id r hint i)
  | refused {id : Nat} (hpc : s.threads[id]? = some pc) (hi : pc.idle = true)
    (h : routerConnectStart cnf env s.router hint = (r, none)) :
    SysTurn cnf s (.connect id env hint) { s.goto id .out with router := routerConnectEnd r }
  | dials {id : Nat} (hpc : s.threads[id]? = some (.holding p hint chose)) (hd : s.slot p = some d) :
    SysTurn cnf s (.dial id) (s.goto id (.dialled p hint chose d.dst.addr))
  | retries {id : Nat} (hpc : s.threads[id]? = some (.dialled p hint chose peer)) (hd : s.slot p = some d)
    (he : error ≠ 0 ∧ error ≠ EINPROGRESS)
    (h : routerConnectRetry cnf now env s.router hint p.idx = (r, some i)) :
    SysTurn cnf s (.connected id error now env) (s.hold id r hint i)
  | fails {id : Nat} (hpc : s.threads[id]? = some (.dialled p hint chose peer)) (hd : s.slot p = some d)
    (he : error ≠ 0 ∧ error ≠ EINPROGRESS)
    (h : routerConnectRetry cnf now env s.router hint p.idx = (r, none)) :
    SysTurn cnf s (.connected id error now env) { s.goto id .out with router := routerConnectEnd r }
  | connects {id : Nat} (hpc : s.threads[id]? = some (.dialled p hint chose peer)) (hd : s.slot p = some d)
    (he : ¬ (error ≠ 0 ∧ error ≠ EINPROGRESS)) :
    SysTurn cnf s (.connected id error now env)
      { s.goto id (.done d.dst.addr peer) with router := routerConnectEnd s.router }

variable {cnf : Cnf} {s s' : RouterSys} {r r' : Router} {op : SysOp} {id i : Nat} {p : DstPtr}

theorem change_turn (h : sysChange cnf s env dst ctx = some s') :
    SysTurn cnf s (.change env dst ctx) s' := by
  unfold sysChange at h
  cases hc : s.changer with
  | waiting _ _ _ => simp [hc] at h
  | out =>
    simp only [hc] at h
    split at h <;> rename_i hw <;> simp only [Option.some.injEq] at h <;> subst h
    · exact .waits hc hw
    · exact .changes hc (by simpa using hw)

theorem wake_turn (h : sysWake cnf s env = some s') : SysTurn cnf s (.wake env) s' := by
  unfold sysWake at h
  cases hc : s.changer with
  | out => simp [hc] at h
  | waiting dst ctx found =>
    simp only [hc] at h
    split at h <;> rename_i hb <;> simp only [Option.some.injEq] at h <;> subst h
    · exact .sleeps hb
    · exact .wakes hc hb

theorem connect_turn (h : sysConnect cnf s id env hint = some s') :
    SysTurn cnf s (.connect id env hint) s' := by
  unfold sysConnect at h
  cases hpc : s.threads[id]? with
  | none => simp [hpc] at h
  | some pc =>
    simp only [hpc] at h
    split at h
    · rename_i hi
      cases hr : routerConnectStart cnf env s.router hint with
      | mk r ret =>
        cases ret with
        | none =>
          simp only [hr, Option.some.injEq] at h
          exact h ▸ .refused hpc hi hr
        | some i =>
          simp only [hr, Option.some.injEq] at h
          exact h ▸ .starts hpc hi hr
    · cases h

theorem dial_turn (h : sysDial s id = some s') : SysTurn cnf s (.dial id) s' := by
  unfold sysDial at h
  split at h
  · rename_i p hint chose hpc
    cases hd : s.slot p with
    | none => simp [hd] at h
    | some d =>
      simp only [hd, Option.some.injEq] at h
      exact h ▸ .dials hpc hd
  · cases h

theorem connected_sys_turn (h : sysConnected cnf s id error now env = some s') :
    SysTurn cnf s (.connected id error now env) s' := by
  unfold sysConnected at h
  split at h
  · rename_i p hint chose peer hpc
    cases hd : s.slot p with
    | none => simp [hd] at h
    | some d =>
      simp only [hd] at h
      split at h <;> rename_i he
      · cases hr : routerConnectRetry cnf now env s.router hint p.idx with
        | mk r ret =>
          cases ret with
          | none =>
            simp only [hr, Option.some.injEq] at h
            exact h ▸ .fails hpc hd he hr
          | some i =>
            simp only [hr, Option.some.injEq] at h
            exact h ▸ .retries hpc hd he hr
      · simp only [Option.some.injEq] at h
        exact h ▸ .connects hpc hd he
  · cases h

theorem turn_cases (h : sysStep cnf s op = some s') : SysTurn cnf s op s' := by
  cases op with
  | change env dst ctx => exact change_turn h
  | wake env => exact wake_turn h
  | choose env hint =>
    simp only [sysStep, Option.some.injEq] at h
    exact h ▸ .chooses rfl
  | disconnect now a failed =>
    simp only [sysStep, Option.some.injEq] at h
    exact h ▸ .disconnects
  | chooseAgain now env hint a =>
    simp only [sysStep, Option.some.injEq] at h
    exact h ▸ .again rfl
  | connect id env hint => exact connect_turn h
  | dial id => exact dial_turn h
  | connected id error now env => exact connected_sys_turn h

section shape

/-- The addresses of the table, slot by slot. -/
def listing (r : Router) : List SockAddr := r.dst.map dstAddr

/-- A destination apart from what routing changes. -/
def label (d : RouterDst) : Dst × Option CtxId := (d.dst, d.probeCtx)

def labels (r : Router) : List (Dst × Option CtxId) := r.dst.map label

/-- A choice or a release, which changes none of the labels and counts no thread. -/
structure LabelsKept (r r' : Router) : Prop where
  labels : labels r' = labels r
  busy : r'.busyCount = r.busyCount
  wait : r'.waitCount = r.waitCount

theorem LabelsKept.trans {q : Router} (h : LabelsKept r q) (h' : LabelsKept q r') : LabelsKept r r' :=
  ⟨h'.labels.trans h.labels, h'.busy.trans h.busy, h'.wait.trans h.wait⟩

theorem same_routed (h : SameUpTo core r r') : LabelsKept r r' := ⟨h.map label (fun _ => rfl), h.busy, h.wait⟩

theorem count_routed (r : Router) (i : Nat) (n : Int) : LabelsKept r (r.count i n) :=
  ⟨map_modify _ _ _ _ (fun _ => rfl), rfl, rfl⟩

theorem choose_routed (h : routerChooseDst cnf env r hint = (r', ret)) : LabelsKept r r' := by
  rcases choose_picked h with ⟨_, hp⟩ | ⟨q, i, _, hp, rfl⟩
  · exact same_routed hp.same
  · exact (same_routed hp.same).trans (count_routed q i 1)

theorem disconnect_routed (cnf : Cnf) (now : Int) (r : Router) (a : SockAddr) (failed : Bool) :
    LabelsKept r (glbRouterDisconnect cnf now r a failed) := by
  have hc := disconnect_cases cnf now r a failed
  generalize glbRouterDisconnect cnf now r a failed = q at hc ⊢
  cases hc with
  | unlisted _ => exact ⟨rfl, rfl, rfl⟩
  | counted _ _ => exact count_routed r _ (-1)
  | failed _ _ => exact (count_routed r _ (-1)).trans (same_routed (failed_core cnf now _ _))

theorem retry_routed (h : routerConnectRetry cnf now env r hint i = (r', ret)) : LabelsKept r r' :=
  ((count_routed r i (-1)).trans (same_routed (failed_core cnf now _ i))).trans (choose_routed h)

theorem listing_labels (r : Router) : listing r = (labels r).map (fun x => x.1.addr) := by
  unfold listing labels
  rw [List.map_map]
  rfl

/-- Neither the slots nor the number of connecting threads change. -/
structure SlotsKept (r r' : Router) : Prop where
  listing : listing r' = listing r
  busy : r'.busyCount = r.busyCount

theorem SlotsKept.refl (r : Router) : SlotsKept r r := ⟨rfl, rfl⟩

theorem SlotsKept.trans {q : Router} (h : SlotsKept r q) (h' : SlotsKept q r') : SlotsKept r r' :=
  ⟨h'.listing.trans h.listing, h'.busy.trans h.busy⟩

theorem LabelsKept.settled (h : LabelsKept r r') : SlotsKept r r' := by
  refine ⟨?_, h.busy⟩
  rw [listing_labels, listing_labels, h.labels]

theorem same_slots_kept (h : SameUpTo core r r') : SlotsKept r r' := (same_routed h).settled

theorem set_weight_settled (r : Router) (i : Nat) (w : ℚ) : SlotsKept r (routerSetWeight r i w) :=
  ⟨map_modify _ _ _ _ (fun _ => rfl), rfl⟩

/-- The slot that a choice returns is one of the table. -/
theorem choose_slot (h : routerChooseDst cnf env r hint = (r', some i)) :
    ∃ d, r'.dst[i]? = some d := by
  rcases choose_picked h with ⟨hn, _⟩ | ⟨q, j, hj, hp, rfl⟩
  · cases hn
  · simp only [Option.some.injEq] at hj
    subst hj
    have hi : i < (q.count i 1).dst.length := by
      simp only [Router.count, List.length_modify]
      exact hp.same.length ▸ hp.listed i rfl
    exact ⟨_, List.getElem?_eq_getElem hi⟩

theorem find_listing (r : Router) (dst : Dst) :
    routerFindDst r dst = (listing r).findIdx? (fun a => glbSockaddrIsEqual a dst.addr) := by
  unfold routerFindDst listing
  rw [List.findIdx?_map]
  rfl

end shape

section invariant

/-- A thread inside `router_connect_dst`, which `busy_count` counts. -/
def busyPc (pc : ConnectPc) : Bool := !pc.idle

/-- The address in the slot behind a pointer. -/
def slotAddr (s : RouterSys) (p : DstPtr) : Option SockAddr := (s.slot p).map dstAddr

/-- What a thread relies on: the slot it holds has the address it chose. -/
def SlotOk (s : RouterSys) : ConnectPc → Prop
  | .out => True
  | .holding p _ chose => ∃ a, chose = some a ∧ slotAddr s p = some a
  | .dialled p _ chose peer => chose = some peer ∧ slotAddr s p = some peer
  | .done addr peer => addr = peer

/-- The protocol of `busy_count`: it counts the connecting threads, their slots are
what they were, and a waiting change would still find what it found. -/
structure SlotsHeld (s : RouterSys) : Prop where
  unique : Unique s.router
  busy : s.router.busyCount = s.threads.countP busyPc
  slots : ∀ pc ∈ s.threads, SlotOk s pc
  found : ∀ dst ctx found, s.changer = .waiting dst ctx found →
    routerFindDst s.router dst = found ∧ ¬ (found = none ∧ dst.weight < 0)

theorem SlotsHeld.addrs (h : SlotsHeld s) : (RouterCount.addrs s.router).Nodup :=
  RouterCount.addrs_map s.router ▸ h.unique

theorem slot_addr_eq (s : RouterSys) (p : DstPtr) :
    slotAddr s p = if p.base = s.base then (listing s.router)[p.idx]? else none := by
  unfold slotAddr RouterSys.slot listing
  split
  · rw [List.getElem?_map]
  · rfl

/-- A pointer that leads somewhere leads into the table. -/
theorem slot_listed (h : s.slot p = some d) : s.router.dst[p.idx]? = some d := by
  unfold RouterSys.slot at h
  split at h
  · exact h
  · cases h

theorem slot_addr (hd : s.slot p = some d) (ha : slotAddr s p = some a) : d.dst.addr = a := by
  simpa [slotAddr, hd, dstAddr] using ha

theorem SlotOk.settled (h : SlotOk s pc) (hb : s'.base = s.base)
    (hl : listing s'.router = listing s.router) : SlotOk s' pc := by
  have hs : ∀ p, slotAddr s' p = slotAddr s p := by
    intro p
    rw [slot_addr_eq, slot_addr_eq, hb, hl]
  cases pc with
  | out => trivial
  | holding p hint chose =>
    obtain ⟨a, hc, ha⟩ := h
    exact ⟨a, hc, (hs p).trans ha⟩
  | dialled p hint chose peer => exact ⟨h.1, (hs p).trans h.2⟩
  | done addr peer => exact h

/-- A thread that holds nothing relies on nothing in the table. -/
theorem SlotOk.idle (h : SlotOk s pc) (hi : busyPc pc = false) : SlotOk s' pc := by
  cases pc with
  | out => trivial
  | holding p hint chose => cases hi
  | dialled p hint chose peer => cases hi
  | done addr peer => exact h

theorem SlotsHeld.settled (h : SlotsHeld s) (hr : SlotsKept s.router r) : SlotsHeld { s with router := r } := by
  refine ⟨?_, hr.busy.trans h.busy, fun pc hpc => (h.slots pc hpc).settled rfl hr.listing, ?_⟩
  · exact (congrArg List.Nodup hr.listing).mpr h.unique
  · intro dst ctx found hc
    obtain ⟨hf, hw⟩ := h.found dst ctx found hc
    rw [find_listing] at hf ⊢
    exact ⟨hr.listing ▸ hf, hw⟩

/-- Entering and leaving `router_connect_dst`. -/
def presence (pc : ConnectPc) : Int := if busyPc pc then 1 else 0

/-- `busy_count` follows a thread in and out. -/
theorem goto_busy (h : s.router.busyCount = s.threads.countP busyPc) (hpc : s.threads[id]? = some pc)
    (pc' : ConnectPc) (hb : r.busyCount = s.router.busyCount - presence pc + presence pc') :
    r.busyCount = (s.goto id pc').threads.countP busyPc := by
  rw [hb, h]
  exact (countP_set_int busyPc hpc pc').symm

/-- The rule for the step of one connecting thread. -/
theorem SlotsHeld.goto (h : SlotsHeld s) (hpc : s.threads[id]? = some pc) (pc' : ConnectPc) (hl : listing r = listing s.router)
    (hb : r.busyCount = s.router.busyCount - presence pc + presence pc')
    (hok : SlotOk { s with router := r } pc') : SlotsHeld { s.goto id pc' with router := r } := by
  refine ⟨(congrArg List.Nodup hl).mpr h.unique, goto_busy h.busy hpc pc' hb, ?_, ?_⟩
  · intro q hq
    rcases List.mem_or_eq_of_mem_set hq with hm | rfl
    · exact (h.slots q hm).settled rfl hl
    · exact hok
  · intro dst ctx found hc
    obtain ⟨hf, hw⟩ := h.found dst ctx found hc
    rw [find_listing] at hf ⊢
    exact ⟨hl ▸ hf, hw⟩

/-- A thread takes up the slot that a choice returned. -/
theorem SlotsHeld.hold (h : SlotsHeld s) (hpc : s.threads[id]? = some pc) (hl : listing r = listing s.router)
    (hb : r.busyCount = s.router.busyCount - presence pc + 1)
    (hi : ∃ d, r.dst[i]? = some d) : SlotsHeld (s.hold id r hint i) := by
  obtain ⟨d, hd⟩ := hi
  refine h.goto hpc (.holding ⟨s.base, i⟩ hint (r.addrAt (some i))) hl hb ⟨dstAddr d, ?_, ?_⟩
  · simp [Router.addrAt, hd, dstAddr]
  · simp [slotAddr, RouterSys.slot, hd]

end invariant

section change
variable {env : ChangeEnv} {dst : Dst} {ctx : Option CtxId}

/-- A change that does not wait for a connecting thread sets a weight at most, and redoes
what depends on it. -/
theorem busy_change (cnf : Cnf) (env : ChangeEnv) (ctx : Option CtxId) (hb : 0 < r.busyCount)
    (hw : routerChangeWaits r dst = false) :
    (glbRouterChangeDst cnf env r dst ctx).1 = r ∨
      ∃ q, (q = r ∨ ∃ i, q = routerSetWeight r i dst.weight) ∧
        (glbRouterChangeDst cnf env r dst ctx).1 = routerRedo cnf env.now q := by
  have hw' : (routerFindDst r dst).isNone = decide (dst.weight < 0) := by
    simpa [routerChangeWaits, hb] using hw
  rw [change_dst_eq]
  cases he : routerEdit env r dst ctx with
  | none => exact Or.inl rfl
  | some q =>
    refine Or.inr ⟨q, ?_, rfl⟩
    cases edit_cases he with
    | added hf hn _ => simp [hf, hn] at hw'
    | noMemory _ _ _ => exact Or.inl rfl
    | removed hf _ _ hn => simp [hf, hn] at hw'
    | @weighed i _ _ _ _ _ _ => exact Or.inr ⟨i, rfl⟩

/-- A change that did not have to wait, or waited to the end, ran with no thread
connecting unless it leaves the slots alone. -/
theorem change_settled (hw : routerChangeWaits r dst = false) :
    ¬ 0 < r.busyCount ∨ SlotsKept r (glbRouterChangeDst cnf env r dst ctx).1 := by
  by_cases hb : 0 < r.busyCount
  · right
    rcases busy_change cnf env ctx hb hw with h | ⟨q, hq, h⟩ <;> rw [h]
    · exact SlotsKept.refl r
    · have hredo := same_slots_kept (redo_same cnf env.now q).core
      rcases hq with rfl | ⟨i, rfl⟩
      · exact hredo
      · exact (set_weight_settled r i dst.weight).trans hredo
  · exact Or.inl hb

theorem settled_base (h : SlotsKept s.router r) (env : ChangeEnv) : (s.changed env r).base = s.base := by
  have hlen : r.dst.length = s.router.dst.length := by
    simpa [listing] using congrArg List.length h.listing
  simp [RouterSys.changed, arrayMoved, hlen]

theorem change_unique (cnf : Cnf) (env : ChangeEnv) (dst : Dst) (ctx : Option CtxId) (h : Unique r) :
    Unique (glbRouterChangeDst cnf env r dst ctx).1 := by
  rw [change_dst_eq]
  cases he : routerEdit env r dst ctx with
  | none => exact h
  | some q => exact core_unique (redo_same cnf env.now q).core (edit_unique h (edit_cases he))

/-- The end of a change, which may have moved the array. -/
theorem SlotsHeld.changed (h : SlotsHeld s) (hu : Unique r) (hb : r.busyCount = s.router.busyCount)
    (hs : ¬ 0 < s.router.busyCount ∨ SlotsKept s.router r) : SlotsHeld (s.changed env r) := by
  refine ⟨hu, hb.trans h.busy, ?_, nofun⟩
  intro pc hpc
  rcases hs with hz | hs
  · have hidle : busyPc pc = false := by
      have hcount : s.threads.countP busyPc = 0 := by
        have := h.busy
        omega
      simpa using List.countP_eq_zero.mp hcount pc hpc
    exact (h.slots pc hpc).idle hidle
  · exact (h.slots pc hpc).settled (settled_base hs env) hs.listing

/-- What is left to do after the wait is the change as it would be made now. -/
theorem apply_change (hf : routerFindDst r dst = found) (hn : ¬ (found = none ∧ dst.weight < 0)) :
    routerApplyChange cnf env r dst ctx found = glbRouterChangeDst cnf env r dst ctx := by
  unfold glbRouterChangeDst
  cases found with
  | none =>
    have hw : ¬ dst.weight < 0 := fun hw => hn ⟨rfl, hw⟩
    simp [hf, hw]
  | some i => simp [hf]

end change

theorem held_init (n : Nat) : SlotsHeld (RouterSys.init n) := by
  refine ⟨List.nodup_nil, ?_, ?_, nofun⟩
  · simp [RouterSys.init, Router.init, List.countP_replicate, busyPc, ConnectPc.idle]
  · intro pc hpc
    have ho : pc = .out := List.eq_of_mem_replicate hpc
    subst ho
    trivial

theorem idle_presence (h : pc.idle = true) : presence pc = 0 := by
  simp [presence, busyPc, h]

/-- The protocol survives every step of every thread. -/
theorem step_held (h : SlotsHeld s) (hstep : sysStep cnf s op = some s') : SlotsHeld s' := by
  cases turn_cases hstep with
  | waits hc hw =>
    refine ⟨h.unique, h.busy, fun pc hpc => (h.slots pc hpc).settled rfl rfl, ?_⟩
    rintro dst ctx found ⟨⟩
    refine ⟨rfl, ?_⟩
    rintro ⟨hf, hneg⟩
    simp [routerChangeWaits, hf, hneg] at hw
  | @changes dst env ctx hc hw =>
    exact h.changed (change_unique cnf env dst ctx h.unique)
      (RouterCount.change_counters cnf env s.router dst ctx).1 (change_settled hw)
  | sleeps _ => exact h
  | @wakes dst ctx found env hc hb =>
    obtain ⟨hf, hn⟩ := h.found _ _ _ hc
    rw [apply_change (r := { s.router with waitCount := s.router.waitCount - 1 }) hf hn]
    exact h.changed (change_unique cnf env dst ctx h.unique)
      (RouterCount.change_counters cnf env _ dst ctx).1 (Or.inl hb)
  | chooses hr => exact h.settled ((choose_routed hr).settled)
  | disconnects => exact h.settled (disconnect_routed cnf _ s.router _ _).settled
  | again hr => exact h.settled ((disconnect_routed cnf _ s.router _ true).trans (choose_routed hr)).settled
  | starts hpc hi hr =>
    have hs := (choose_routed hr).settled
    apply h.hold hpc hs.listing
    · rw [hs.busy, idle_presence hi, Int.sub_zero]
    · exact choose_slot hr
  | refused hpc hi hr =>
    have hs := (choose_routed hr).settled
    apply h.goto hpc .out (r := routerConnectEnd _) hs.listing
    · simp only [routerConnectEnd, hs.busy, idle_presence hi]
      simp [presence, busyPc, ConnectPc.idle]
    · trivial
  | @dials p hint chose d id hpc hd =>
    obtain ⟨a, hc, ha⟩ := h.slots _ (List.mem_of_getElem? hpc)
    apply h.goto hpc (.dialled p hint chose d.dst.addr) rfl
    · simp [presence, busyPc, ConnectPc.idle]
    · have had := slot_addr hd ha
      exact ⟨hc.trans (congrArg some had.symm), ha.trans (congrArg some had.symm)⟩
  | retries hpc hd he hr =>
    have hs := (retry_routed hr).settled
    apply h.hold hpc hs.listing
    · rw [hs.busy]
      simp [presence, busyPc, ConnectPc.idle]
    · exact choose_slot hr
  | fails hpc hd he hr =>
    have hs := (retry_routed hr).settled
    apply h.goto hpc .out (r := routerConnectEnd _) hs.listing
    · simp only [routerConnectEnd, hs.busy]
      simp [presence, busyPc, ConnectPc.idle]
    · trivial
  | @connects p hint chose peer d error now env id hpc hd he =>
    obtain ⟨_, ha⟩ := h.slots _ (List.mem_of_getElem? hpc)
    apply h.goto hpc (.done d.dst.addr peer) (r := routerConnectEnd s.router) rfl
    · simp [routerConnectEnd, presence, busyPc, ConnectPc.idle]
    · exact slot_addr hd ha

/-- The rule for what holds of the router through every step of every thread: it has to
survive a change, a choice, a release and a failure report. `Held` is what makes a
release hit a slot of the table. -/
theorem step_router (inv : Router → Prop)
    (counters : ∀ r b w, inv r → inv { r with busyCount := b, waitCount := w })
    (change : ∀ r env dst ctx, inv r → inv (glbRouterChangeDst cnf env r dst ctx).1)
    (choose : ∀ r env hint, inv r → inv (routerChooseDst cnf env r hint).1)
    (release : ∀ r (i : Nat) d, r.dst[i]? = some d → inv r → inv (r.count i (-1)))
    (failed : ∀ r now i, inv r → inv (routerDstFailed cnf now r i))
    (hh : SlotsHeld s) (hi : inv s.router) (hstep : sysStep cnf s op = some s') : inv s'.router := by
  have chosen : ∀ {r r' : Router} {env hint ret}, inv r →
      routerChooseDst cnf env r hint = (r', ret) → inv r' := by
    intro r r' env hint ret hr h
    have hc := choose r env hint hr
    rw [h] at hc
    exact hc
  have dropped : ∀ {r : Router} {now a f}, inv r → inv (glbRouterDisconnect cnf now r a f) := by
    intro r now a f hr
    have hc := disconnect_cases cnf now r a f
    generalize glbRouterDisconnect cnf now r a f = q at hc ⊢
    cases hc with
    | unlisted _ => exact hr
    | counted hd _ => exact release r _ _ hd hr
    | failed hd _ => exact failed _ now _ (release r _ _ hd hr)
  cases turn_cases hstep with
  | waits _ _ => exact counters _ _ _ hi
  | changes _ _ => exact change _ _ _ _ hi
  | sleeps _ => exact hi
  | wakes hc _ =>
    obtain ⟨hf, hn⟩ := hh.found _ _ _ hc
    rw [apply_change (r := { s.router with waitCount := s.router.waitCount - 1 }) hf hn]
    exact change _ _ _ _ (counters _ _ _ hi)
  | chooses hr => exact chosen hi hr
  | disconnects => exact dropped hi
  | again hr => exact chosen (dropped hi) hr
  | starts _ _ hr => exact chosen (counters _ _ _ hi) hr
  | refused _ _ hr => exact counters _ _ _ (chosen (counters _ _ _ hi) hr)
  | dials _ _ => exact hi
  | retries _ hd _ hr => exact chosen (failed _ _ _ (release _ _ _ (slot_listed hd) hi)) hr
  | fails _ hd _ hr =>
    exact counters _ _ _ (chosen (failed _ _ _ (release _ _ _ (slot_listed hd) hi)) hr)
  | connects _ _ _ => exact counters _ _ _ hi

theorem count_table (hu : Unique r) (hd : r.dst[i]? = some d) (n : Int) :
    Unique (r.count i n) ∧ table (r.count i n) =
      update (table r) (dstAddr d) (some { entry d with conns := d.conns + n }) :=
  assoc_modify (fun d : RouterDst =>
    { d with conns := d.conns + n, usage := routerDstUsage { d with conns := d.conns + n } })
    (fun _ => rfl) hu hd

theorem marked_table (hu : Unique r) (hd : r.dst[i]? = some d) (now : Int) :
    Unique (marked now r i) ∧ table (marked now r i) =
      update (table r) (dstAddr d) (some { entry d with failed := now }) :=
  assoc_modify (fun d : RouterDst => { d with failed := now }) (fun _ => rfl) hu hd

/-- The undo of a failed attempt, as a change of the map. -/
theorem undo_table (cnf : Cnf) (now : Int) (hu : Unique r) (hd : r.dst[i]? = some d) :
    table (routerDstFailed cnf now (r.count i (-1)) i) =
      update (table r) (dstAddr d) (some { entry d with conns := d.conns - 1, failed := now }) := by
  obtain ⟨huc, hcount⟩ := count_table hu hd (-1)
  have hd' : (r.count i (-1)).dst[i]? =
      some { d with conns := d.conns + -1, usage := routerDstUsage { d with conns := d.conns + -1 } } := by
    simp [Router.count, hd]
  obtain ⟨hum, hmark⟩ := marked_table huc hd' now
  rw [(stem_table (failed_same cnf now _ i) hum).2, hmark, hcount]
  exact update_idem _ _ _

/-- What a thread that came back from `connect ()` may rely on. -/
structure KeepsDst (cnf : Cnf) (s : RouterSys) : Prop where
  chosen : ∀ env hint r i, routerChooseDst cnf env s.router hint = (r, some i) →
    ∃ a, r.addrAt (some i) = some a ∧
      ∀ x, RouterCount.connsOf r x = RouterCount.connsOf s.router x + if x = a then 1 else 0
  held : ∀ p hint chose, .holding p hint chose ∈ s.threads →
    ∃ d, s.slot p = some d ∧ chose = some d.dst.addr
  relocked : ∀ p hint chose peer, .dialled p hint chose peer ∈ s.threads →
    ∃ d, s.slot p = some d ∧ chose = some d.dst.addr ∧ peer = d.dst.addr ∧
      ∀ now, table (routerDstFailed cnf now (s.router.count p.idx (-1)) p.idx) =
        update (table s.router) peer (some { entry d with conns := d.conns - 1, failed := now })
  connected : ∀ addr peer, .done addr peer ∈ s.threads → addr = peer

theorem slot_get (h : slotAddr s p = some a) :
    ∃ d, s.slot p = some d ∧ dstAddr d = a ∧ s.router.dst[p.idx]? = some d := by
  obtain ⟨d, hd, rfl⟩ := Option.map_eq_some_iff.mp h
  exact ⟨d, hd, rfl, slot_listed hd⟩

/-- In every run of any number of threads, the slot that a connecting thread holds
is the one it chose. -/
theorem held_slot_keeps_dst (n : Nat) (ops : List SysOp)
    (h : exec (sysStep cnf) (RouterSys.init n) ops = some s) : KeepsDst cnf s := by
  have hh : SlotsHeld s := exec_invariant (fun _ _ _ => step_held) (held_init n) h
  refine ⟨?_, ?_, ?_, ?_⟩
  · intro env hint r i hr
    obtain ⟨hm, _, _⟩ := RouterCount.choose_moves hh.addrs env hint hr
    obtain ⟨d, hd⟩ := choose_slot hr
    have ha : r.addrAt (some i) = some d.dst.addr := by simp [Router.addrAt, hd]
    refine ⟨d.dst.addr, ha, fun x => ?_⟩
    rw [hm.conns, ha, mark_some]
  · intro p hint chose hpc
    obtain ⟨a, hc, ha⟩ := hh.slots _ hpc
    obtain ⟨d, hd, rfl, _⟩ := slot_get ha
    exact ⟨d, hd, hc⟩
  · intro p hint chose peer hpc
    obtain ⟨hc, ha⟩ := hh.slots _ hpc
    obtain ⟨d, hd, rfl, hget⟩ := slot_get ha
    exact ⟨d, hd, hc, rfl, fun now => undo_table cnf now hh.unique hget⟩
  · intro addr peer hpc
    exact hh.slots _ hpc

/- What concrete runs of the threads are made of. -/

def listAt (now : Int) (addr : SockAddr) (weight : ℚ) : SysOp :=
  .change ⟨now, now, true⟩ ⟨addr, weight⟩ none

def sysReached (cnf : Cnf) (n : Nat) (ops : List SysOp) : RouterSys :=
  (exec (sysStep cnf) (RouterSys.init n) ops).getD (RouterSys.init n)

/-- A thread is connecting to A when B is to be listed, which has to wait. -/
def listDuringConnect : List SysOp :=
  [listAt 100 serverA 1, .connect 0 (chooseAt 100) 0, listAt 100 serverB 1, .dial 0,
    .choose (chooseAt 100) 0, .wake ⟨101, 101, true⟩]

theorem held_slot_keeps_dst_list_during_connect :
    KeepsDst roundRobin (sysReached roundRobin 2 listDuringConnect) ∧
      (sysReached roundRobin 2 listDuringConnect).changer = .waiting ⟨serverB, 1⟩ none none ∧
      (sysReached roundRobin 2 listDuringConnect).threads =
        [.dialled ⟨1, 0⟩ 0 (some serverA) serverA, .out] := by
  refine ⟨held_slot_keeps_dst 2 listDuringConnect ?_, ?_, ?_⟩
  all_goals decide +kernel

end Glb.Proofs.HeldSlot
