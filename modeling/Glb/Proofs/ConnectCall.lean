import Glb.Proofs.HeldSlot
import Glb.Proofs.TopDst

namespace Glb.Proofs.ConnectCall
open Lib.Keyed Lib.Run Lib.Tally RouterFrame RouterCore RouterRun RouterTable RouterCount HeldSlot TopDst

/-- One call of `router_connect_dst` in a thread, with what it has done so far: how many
steps it took, the addresses that it called `connect ()` for, those that came back and
with which error, the clock of its first failure report, what it returned, and what its
own steps have added to the counts. -/
structure Call where
  sys : RouterSys
  turns : Nat
  attempts : List SockAddr
  ended : List (SockAddr × Int)
  firstFailed : Option Int
  code : Option Int
  net : SockAddr → Int

def Call.start (s : RouterSys) : Call := ⟨s, 0, [], [], none, none, fun _ => 0⟩

variable {cnf : Cnf} {s s' : RouterSys} {x y : Call} {r r' : Router} {op : SysOp} {id i : Nat} {p : DstPtr}
variable {env : ChooseEnv} {hint : UInt32} {now t : Int} {a : SockAddr} {F : List SockAddr}

/-- Whether a step is one of the thread `id`. -/
def ownStep (id : Nat) : SysOp → Bool
  | .connect i _ _ => i = id
  | .dial i => i = id
  | .connected i _ _ _ => i = id
  | _ => false

/-- An error on which the loop goes on to the next destination. -/
def connectFailed (error : Int) : Bool := error ≠ 0 && error ≠ EINPROGRESS

/-- The address that a thread is inside `connect ()` for. -/
def dialling (s : RouterSys) (id : Nat) : Option SockAddr :=
  match s.threads[id]? with
  | some (.dialled _ _ _ peer) => some peer
  | _ => none

/-- The attempt that a step of the thread ends. -/
def endedBy (s : RouterSys) (id : Nat) : SysOp → Option (SockAddr × Int)
  | .connected _ error _ _ => (dialling s id).map (fun a => (a, error))
  | _ => none

/-- The clock of the failure report that a step of the thread makes. -/
def failedAt : SysOp → Option Int
  | .connected _ error now _ => if connectFailed error then some now else none
  | _ => none

/-- The call after a step of its own thread that led to `s`. -/
def Call.advance (x : Call) (id : Nat) (op : SysOp) (s : RouterSys) : Call :=
  let ended := x.ended ++ (endedBy x.sys id op).toList
  { sys := s
    turns := x.turns + 1
    attempts := x.attempts ++ (dialling s id).toList
    ended := ended
    firstFailed := x.firstFailed.or (failedAt op)
    code := if (s.threads[id]?).all ConnectPc.idle then some (connectCode (ended.map Prod.snd)) else none
    net := fun a => x.net a + (connsOf s.router a - connsOf x.sys.router a) }

/-- A step of any thread. The record is complete once the call has returned. -/
def callStep (cnf : Cnf) (id : Nat) (x : Call) (op : SysOp) : Option Call :=
  (sysStep cnf x.sys op).map fun s =>
    if ownStep id op && x.code.isNone then x.advance id op s else { x with sys := s }

/-- The clock readings of a step. -/
def clocks : SysOp → List Int
  | .change env _ _ => [env.now]
  | .wake env => [env.now]
  | .choose env _ => [env.now]
  | .disconnect now _ failed => if failed then [now] else []
  | .chooseAgain now env _ _ => [now, env.now]
  | .connect _ env _ => [env.now]
  | .dial _ => []
  | .connected _ error now env => if connectFailed error then [now, env.now] else []

/-- From the first failed attempt of the call on, until it returns, the clock does not
advance by more than the retry interval. -/
def ClockSteady (cnf : Cnf) (id : Nat) (x : Call) (op : SysOp) : Prop :=
  x.code = none → ∀ t ∈ x.firstFailed.or (if ownStep id op then failedAt op else none),
    ∀ c ∈ clocks op, t ≤ c ∧ c ≤ t + routerRetryInterval cnf

instance : Decidable (ClockSteady cnf id x op) := inferInstanceAs (Decidable (_ → _))

section marks

/-- The destinations with these addresses have a failure mark no older than `t`. -/
def Marks (F : List SockAddr) (t : Int) (r : Router) : Prop :=
  ∀ d ∈ r.dst, d.dst.addr ∈ F → t ≤ d.failed

/-- Addresses and failure marks. -/
def faults (r : Router) : List (SockAddr × Int) := r.dst.map (fun d => (d.dst.addr, d.failed))

theorem Marks.same (h : Marks F t r) (hf : faults r' = faults r) : Marks F t r' := by
  intro d hd ha
  obtain ⟨e, he, heq⟩ := mem_of_map_eq hf hd
  simp only [Prod.mk.injEq] at heq
  exact heq.2 ▸ h e he (heq.1 ▸ ha)

theorem stem_faults (h : SameUpTo stem r r') : faults r' = faults r :=
  h.map (fun d => (d.dst.addr, d.failed)) (fun _ => rfl)

theorem count_faults (r : Router) (i : Nat) (n : Int) : faults (r.count i n) = faults r :=
  map_modify _ _ _ _ (fun _ => rfl)

theorem choose_faults (he : cnf.extra = 0) (hp : routerUsesMap cnf = false)
    (h : routerChooseDst cnf env r hint = (r', ret)) : faults r' = faults r := by
  have halike := choose_alike he env r hint
  rw [h, ready_plain hp] at halike
  have hrows := congrArg (List.map (fun x : Dst × ℚ × Int => (x.1.addr, x.2.2))) halike.rows
  simp only [List.map_map] at hrows
  rw [(prepare_dst cnf env.now r).1] at hrows
  exact hrows

theorem start_faults (he : cnf.extra = 0) (hp : routerUsesMap cnf = false)
    (h : routerConnectStart cnf env r hint = (r', ret)) : faults r' = faults r :=
  choose_faults (r := { r with busyCount := r.busyCount + 1 }) he hp h

theorem start_listing (h : routerConnectStart cnf env r hint = (r', ret)) : listing r' = listing r :=
  (choose_routed (r := { r with busyCount := r.busyCount + 1 }) h).settled.listing

/-- A failure report makes a mark no older than itself and leaves the others. -/
theorem Marks.failed (h : Marks F t r) (hn : t ≤ now) (cnf : Cnf) (i : Nat) :
    Marks F t (routerDstFailed cnf now r i) := by
  refine Marks.same ?_ (stem_faults (failed_same cnf now r i))
  exact forall_modify h (fun _ _ _ => hn)

theorem Marks.disconnect {f : Bool} (h : Marks F t r) (hn : f = true → t ≤ now) (cnf : Cnf)
    (a : SockAddr) : Marks F t (glbRouterDisconnect cnf now r a f) := by
  have hc := disconnect_cases cnf now r a f
  generalize glbRouterDisconnect cnf now r a f = q at hc ⊢
  cases hc with
  | unlisted _ => exact h
  | counted _ _ => exact h.same (count_faults r _ (-1))
  | failed _ _ => exact (h.same (count_faults r _ (-1))).failed (hn rfl) cnf _

/-- The report of the destination in a slot adds its address. -/
theorem Marks.undo (h : Marks F t r) (hu : Unique r) (hd : r.dst[i]? = some d) (hn : t ≤ now)
    (cnf : Cnf) : Marks (F ++ [d.dst.addr]) t (routerDstFailed cnf now (r.count i (-1)) i) := by
  refine Marks.same ?_ (stem_faults (failed_same cnf now _ i))
  have hu' : Unique (r.count i (-1)) := count_unique i (-1) hu
  have hd' : (r.count i (-1)).dst[i]? =
      some { d with conns := d.conns + -1, usage := routerDstUsage { d with conns := d.conns + -1 } } := by
    simp [Router.count, hd]
  intro e he ha
  rcases (mem_modify hu' hd').mp he with rfl | ⟨he, hne⟩
  · exact hn
  · have hmem : e.dst.addr ∈ F := (List.mem_append.mp ha).resolve_right fun h => hne (List.mem_singleton.mp h)
    exact h.same (count_faults r i (-1)) e he hmem

theorem retry_marks (he : cnf.extra = 0) (hp : routerUsesMap cnf = false) (hn : t ≤ now)
    (h : Marks F t r) (hr : routerConnectRetry cnf now env r hint i = (r', ret)) : Marks F t r' :=
  ((h.same (count_faults r i (-1))).failed hn cnf i).same (choose_faults he hp hr)

/-- The three policies choose nobody with a young mark. -/
theorem choose_unmarked (he : cnf.extra = 0) (hp : routerUsesMap cnf = false) (h : Marks F t r)
    (hc : env.now ≤ t + routerRetryInterval cnf) (hr : routerChooseDst cnf env r hint = (r', some i)) :
    ∃ a, r'.addrAt (some i) = some a ∧ a ∈ listing r ∧ a ∉ F := by
  have hret : (routerPolicy cnf env (routerPrepare cnf env.now r) hint).2 = some i := by
    rw [← choose_returns, hr]
  obtain ⟨d, hd, hg⟩ := policy_good he hp (prepare_min cnf env.now r) hret
  obtain ⟨hdst, hnow, hretry⟩ := prepare_dst cnf env.now r
  rw [hdst] at hd
  have hget := congrArg (·[i]?) (choose_routed hr).settled.listing
  simp only [listing, List.getElem?_map, hd] at hget
  refine ⟨d.dst.addr, ?_, List.mem_map_of_mem (List.mem_of_getElem? hd), fun ha => ?_⟩
  · simpa [Router.addrAt, dstAddr] using hget
  · have hle := h d (List.mem_of_getElem? hd) ha
    rw [good_iff, good_base_iff, hnow, hretry] at hg
    have hold := hg.2
    omega

end marks

section others

theorem other_thread (ho : ownStep id op = false) (h : sysStep cnf s op = some s') :
    s'.threads[id]? = s.threads[id]? := by
  have hset : ∀ (l : List ConnectPc) (j : Nat) pc, j ≠ id → (l.set j pc)[id]? = l[id]? :=
    fun l j pc hne => List.getElem?_set_ne hne
  cases turn_cases h with
  | waits _ _ => rfl
  | changes _ _ => rfl
  | sleeps _ => rfl
  | wakes _ _ => rfl
  | chooses _ => rfl
  | disconnects => rfl
  | again _ => rfl
  | starts _ _ _ => exact hset _ _ _ (by simpa [ownStep] using ho)
  | refused _ _ _ => exact hset _ _ _ (by simpa [ownStep] using ho)
  | dials _ _ => exact hset _ _ _ (by simpa [ownStep] using ho)
  | retries _ _ _ _ => exact hset _ _ _ (by simpa [ownStep] using ho)
  | fails _ _ _ _ => exact hset _ _ _ (by simpa [ownStep] using ho)
  | connects _ _ _ => exact hset _ _ _ (by simpa [ownStep] using ho)

theorem busy_pos (hh : SlotsHeld s) (hpc : s.threads[id]? = some pc) (hb : busyPc pc = true) :
    0 < s.router.busyCount := by
  rw [hh.busy]
  exact_mod_cast List.countP_pos_iff.mpr ⟨pc, List.mem_of_getElem? hpc, hb⟩

theorem change_faults (hb : 0 < r.busyCount) (hw : routerChangeWaits r dst = false) :
    faults (glbRouterChangeDst cnf cenv r dst ctx).1 = faults r := by
  rcases busy_change cnf cenv ctx hb hw with h | ⟨q, hq, h⟩ <;> rw [h]
  have hredo := stem_faults (redo_same cnf cenv.now q)
  rcases hq with rfl | ⟨i, rfl⟩
  · exact hredo
  · exact hredo.trans (map_modify _ _ _ _ (fun _ => rfl))

/-- While a thread is connecting, no step of any thread changes what is listed where, and
the marks do not get older. -/
theorem busy_step (he : cnf.extra = 0) (hp : routerUsesMap cnf = false)
    (hb : 0 < s.router.busyCount) (h : sysStep cnf s op = some s') :
    listing s'.router = listing s.router ∧
      ∀ F t, (∀ c ∈ clocks op, t ≤ c) → Marks F t s.router → Marks F t s'.router := by
  cases turn_cases h with
  | waits _ _ => exact ⟨rfl, fun _ _ _ hm => hm⟩
  | changes _ hw =>
    refine ⟨?_, fun F t _ hm => hm.same (change_faults hb hw)⟩
    exact ((change_settled hw).resolve_left (not_not.mpr hb)).listing
  | sleeps _ => exact ⟨rfl, fun _ _ _ hm => hm⟩
  | wakes _ hz => exact absurd hb hz
  | chooses hr => exact ⟨(choose_routed hr).settled.listing, fun F t _ hm => hm.same (choose_faults he hp hr)⟩
  | @disconnects now a failed =>
    refine ⟨(disconnect_routed cnf _ s.router _ _).settled.listing, fun F t hc hm => ?_⟩
    refine hm.disconnect ?_ cnf _
    rintro rfl
    exact hc now (by simp [clocks])
  | @again env now a hint r ret hr =>
    refine ⟨((disconnect_routed cnf _ s.router _ true).trans (choose_routed hr)).settled.listing,
      fun F t hc hm => ?_⟩
    exact (hm.disconnect (fun _ => hc now (by simp [clocks])) cnf _).same (choose_faults he hp hr)
  | starts _ _ hr =>
    have hl := start_listing hr
    have hf := start_faults he hp hr
    refine ⟨hl, fun F t _ hm => ?_⟩
    have hm' := hm.same hf
    exact hm'
  | refused _ _ hr =>
    have hl := start_listing hr
    have hf := start_faults he hp hr
    refine ⟨hl, fun F t _ hm => ?_⟩
    have hm' := hm.same hf
    exact hm'
  | dials _ _ => exact ⟨rfl, fun _ _ _ hm => hm⟩
  | retries _ _ herr hr =>
    refine ⟨(retry_routed hr).settled.listing, fun F t hc hm => ?_⟩
    have hm' := retry_marks he hp (hc _ (by simp [clocks, connectFailed, herr])) hm hr
    exact hm'
  | fails _ _ herr hr =>
    refine ⟨(retry_routed hr).settled.listing, fun F t hc hm => ?_⟩
    have hm' := retry_marks he hp (hc _ (by simp [clocks, connectFailed, herr])) hm hr
    exact hm'
  | connects _ _ _ => exact ⟨rfl, fun _ _ _ hm => hm⟩

end others

section call

/-- The addresses of the attempts that came back. -/
def tried (x : Call) : List SockAddr := x.ended.map Prod.fst

/-- Where the thread of a call is: it has chosen `a`, or is inside `connect ()` for it. -/
inductive Stands (id : Nat) (a : SockAddr) (x : Call) : Prop
  | holding {p : DstPtr} {hint : UInt32} (hpc : x.sys.threads[id]? = some (.holding p hint (some a)))
    (ha : x.attempts = tried x)
  | dialled {p : DstPtr} {hint : UInt32} (hpc : x.sys.threads[id]? = some (.dialled p hint (some a) a))
    (ha : x.attempts = tried x ++ [a])

/-- A call that has not returned: all its attempts failed, their destinations are marked,
and the one it goes on with is another one and counted. -/
structure Going (id : Nat) (L : List SockAddr) (a : SockAddr) (x : Call) : Prop where
  held : SlotsHeld x.sys
  slots : listing x.sys.router = L
  running : x.code = none
  stands : Stands id a x
  turns : x.turns = 1 + x.attempts.length + x.ended.length
  failed : ∀ p ∈ x.ended, connectFailed p.2 = true
  nodup : (tried x ++ [a]).Nodup
  listed : ∀ b ∈ tried x ++ [a], b ∈ L
  first : x.firstFailed = none → x.ended = []
  marks : ∀ t ∈ x.firstFailed, Marks (tried x) t x.sys.router
  net : x.net = mark (some a)

/-- A call that has returned: what the last of its attempts came back with, if there was
one, and the connection that it has. -/
structure Over (L : List SockAddr) (x : Call) : Prop where
  code : x.code = some (connectCode (x.ended.map Prod.snd))
  attempts : x.attempts = tried x
  turns : x.turns = 1 + x.attempts.length + x.ended.length
  nodup : (tried x).Nodup
  listed : ∀ b ∈ tried x, b ∈ L
  left : ((∀ p ∈ x.ended, connectFailed p.2 = true) ∧ x.net = mark none) ∨
    ∃ l a e, x.ended = l ++ [(a, e)] ∧ (∀ p ∈ l, connectFailed p.2 = true) ∧
      connectFailed e = false ∧ x.net = mark (some a)

theorem Stands.busy (h : Stands id a x) : ∃ pc, x.sys.threads[id]? = some pc ∧ busyPc pc = true := by
  cases h with
  | holding hpc _ => exact ⟨_, hpc, rfl⟩
  | dialled hpc _ => exact ⟨_, hpc, rfl⟩

/-- A step of another thread. -/
theorem Going.other (he : cnf.extra = 0) (hp : routerUsesMap cnf = false) (hg : Going id L a x)
    (ho : ownStep id op = false) (hc : ∀ t ∈ x.firstFailed, ∀ c ∈ clocks op, t ≤ c)
    (h : sysStep cnf x.sys op = some s) : Going id L a { x with sys := s } := by
  obtain ⟨pc, hpc, hbusy⟩ := hg.stands.busy
  obtain ⟨hlist, hmarks⟩ := busy_step he hp (busy_pos hg.held hpc hbusy) h
  have hthread := other_thread ho h
  refine ⟨step_held hg.held h, hlist.trans hg.slots, hg.running, ?_, hg.turns, hg.failed, hg.nodup,
    hg.listed, hg.first, fun t ht => hmarks _ t (hc t ht) (hg.marks t ht), hg.net⟩
  cases hg.stands with
  | holding hpc ha => exact .holding (hthread.trans hpc) ha
  | dialled hpc ha => exact .dialled (hthread.trans hpc) ha

theorem set_thread (hpc : s.threads[id]? = some pc) (pc' : ConnectPc) :
    (s.threads.set id pc')[id]? = some pc' :=
  List.getElem?_set_self (List.getElem?_eq_some_iff.mp hpc).1

theorem advance_running (hpc : s.threads[id]? = some pc) (hb : busyPc pc = true) (x : Call) (op : SysOp) :
    (x.advance id op s).code = none := by
  simp only [busyPc, Bool.not_eq_true'] at hb
  simp [Call.advance, hpc, hb]

theorem advance_returned (hpc : s.threads[id]? = some pc) (hi : pc.idle = true) (x : Call) (op : SysOp) :
    (x.advance id op s).code = some (connectCode ((x.advance id op s).ended.map Prod.snd)) := by
  simp [Call.advance, hpc, hi]

/-- The thread reads the address of the slot it holds. -/
theorem Going.dial (hg : Going id L a x) (h : sysStep cnf x.sys (.dial id) = some s) :
    Going id L a (x.advance id (.dial id) s) := by
  have hheld := step_held hg.held h
  have hended : (x.advance id (.dial id) s).ended = x.ended := by simp [Call.advance, endedBy]
  have hfirst : (x.advance id (.dial id) s).firstFailed = x.firstFailed := by
    simp [Call.advance, failedAt]
  have htried : tried (x.advance id (.dial id) s) = tried x := congrArg (List.map Prod.fst) hended
  cases turn_cases h with
  | @dials p hint chose d _ hpc hd =>
    cases hg.stands with
    | dialled hpc' _ => simp [hpc] at hpc'
    | holding hpc' ha =>
      simp only [hpc, Option.some.injEq, ConnectPc.holding.injEq] at hpc'
      obtain ⟨-, -, rfl⟩ := hpc'
      obtain ⟨b, hb, hslot⟩ := hg.held.slots _ (List.mem_of_getElem? hpc)
      have hda : d.dst.addr = a := slot_addr hd (hslot.trans hb.symm)
      rw [hda] at hended hfirst htried hheld ⊢
      have hthread := set_thread hpc (.dialled p hint (some a) a)
      have hattempts : (x.advance id (.dial id) (x.sys.goto id (.dialled p hint (some a) a))).attempts =
          tried x ++ [a] := by
        simp [Call.advance, dialling, RouterSys.goto, hthread, ha]
      refine ⟨hheld, hg.slots, advance_running hthread rfl _ _, .dialled hthread ?_, ?_, ?_, ?_, ?_, ?_, ?_, ?_⟩
      · rw [hattempts, htried]
      · have hturns := hg.turns
        rw [ha] at hturns
        rw [hattempts, hended, List.length_append, List.length_singleton]
        simp only [Call.advance]
        omega
      · rw [hended]
        exact hg.failed
      · rw [htried]
        exact hg.nodup
      · rw [htried]
        exact hg.listed
      · rw [hended, hfirst]
        exact hg.first
      · rw [htried, hfirst]
        exact hg.marks
      · funext b
        simp [Call.advance, hg.net, RouterSys.goto]

section returns
variable {d : RouterDst} {error : Int}

/-- The attempt that comes back is the one for the destination that the call counts. -/
theorem Going.dialled (hg : Going id L a x) (hpc : x.sys.threads[id]? = some (.dialled p hint chose peer))
    (hd : x.sys.slot p = some d) : peer = a ∧ d.dst.addr = a ∧ x.attempts = tried x ++ [a] := by
  cases hg.stands with
  | holding hpc' _ => simp [hpc] at hpc'
  | dialled hpc' ha =>
    simp only [hpc, Option.some.injEq, ConnectPc.dialled.injEq] at hpc'
    obtain ⟨-, -, -, rfl⟩ := hpc'
    obtain ⟨_, hslot⟩ := hg.held.slots _ (List.mem_of_getElem? hpc)
    exact ⟨rfl, slot_addr hd hslot, ha⟩

/-- After a failed attempt all the destinations tried so far are marked, and the clock has
not got far from the first mark. -/
theorem Going.reported (hg : Going id L a x) (hs : ClockSteady cnf id x (.connected id error now env))
    (hf : connectFailed error = true) (hd : x.sys.router.dst[i]? = some d) (hda : d.dst.addr = a) :
    ∀ t ∈ x.firstFailed.or (some now), env.now ≤ t + routerRetryInterval cnf ∧
      Marks (tried x ++ [a]) t (routerDstFailed cnf now (x.sys.router.count i (-1)) i) := by
  intro t ht
  have hclock := hs hg.running t (by simpa [ownStep, failedAt, hf] using ht)
  simp only [clocks, hf, ↓reduceIte, List.mem_cons, List.not_mem_nil, or_false, forall_eq_or_imp,
    forall_eq] at hclock
  refine ⟨hclock.2.2, hda ▸ Marks.undo ?_ hg.held.unique hd hclock.1.1 cnf⟩
  cases hfirst : x.firstFailed with
  | none =>
    rw [tried, hg.first hfirst]
    exact fun _ _ hmem => absurd hmem List.not_mem_nil
  | some t' =>
    rw [hfirst, Option.some_or, Option.mem_some] at ht
    exact hg.marks t (hfirst.trans (congrArg some ht))

/-- What an attempt that came back adds to the record. -/
theorem advance_ended (hpc : x.sys.threads[id]? = some (.dialled p hint chose a)) (error now : Int)
    (env : ChooseEnv) (s : RouterSys) :
    (x.advance id (.connected id error now env) s).ended = x.ended ++ [(a, error)] := by
  simp [Call.advance, endedBy, dialling, hpc]

/-- A failed attempt after which there is another destination to try. -/
theorem Going.retry (he : cnf.extra = 0) (hp : routerUsesMap cnf = false) (hg : Going id L a x)
    (hs : ClockSteady cnf id x (.connected id error now env)) (hf : connectFailed error = true)
    (hpc : x.sys.threads[id]? = some (.dialled p hint chose a)) (hd : x.sys.slot p = some d)
    (hr : routerConnectRetry cnf now env x.sys.router hint p.idx = (r, some i))
    (hheld : SlotsHeld (x.sys.hold id r hint i)) :
    ∃ b, Going id L b (x.advance id (.connected id error now env) (x.sys.hold id r hint i)) := by
  obtain ⟨-, hda, ha⟩ := hg.dialled hpc hd
  have hended := advance_ended hpc error now env (x.sys.hold id r hint i)
  have hreported := hg.reported hs hf (slot_listed hd) hda
  have hlisting := (retry_routed hr).settled.listing
  have hfirst : (x.advance id (.connected id error now env) (x.sys.hold id r hint i)).firstFailed =
      x.firstFailed.or (some now) := by
    simp [Call.advance, failedAt, hf]
  have hat : x.sys.router.addrAt (some p.idx) = some a := by
    simp [Router.addrAt, slot_listed hd, hda]
  -- the clock of the first report is there, whichever attempt made it
  obtain ⟨t, ht⟩ : ∃ t, t ∈ x.firstFailed.or (some now) := by
    cases x.firstFailed with
    | none => exact ⟨now, rfl⟩
    | some t => exact ⟨t, rfl⟩
  obtain ⟨hnow, hmarks⟩ := hreported t ht
  obtain ⟨b, hb, hbl, hbn⟩ := choose_unmarked he hp hmarks hnow hr
  have hthread : (x.sys.hold id r hint i).threads[id]? = some (.holding ⟨x.sys.base, i⟩ hint (some b)) := by
    rw [← hb]
    exact set_thread hpc _
  have hattempts : (x.advance id (.connected id error now env) (x.sys.hold id r hint i)).attempts =
      tried x ++ [a] := by
    simp [Call.advance, dialling, hthread, ha]
  have htried : tried (x.advance id (.connected id error now env) (x.sys.hold id r hint i)) =
      tried x ++ [a] := by
    simp [tried, hended]
  have hundo : listing (routerDstFailed cnf now (x.sys.router.count p.idx (-1)) p.idx) = L :=
    ((count_routed _ p.idx (-1)).trans (same_routed (failed_core cnf now _ p.idx))).settled.listing.trans
      hg.slots
  refine ⟨b, hheld, hlisting.trans hg.slots, advance_running hthread rfl _ _, .holding hthread ?_, ?_,
    ?_, ?_, ?_, ?_, ?_, ?_⟩
  · rw [hattempts, htried]
  · have hturns := hg.turns
    rw [ha] at hturns
    rw [hattempts, hended]
    simp only [Call.advance, List.length_append, List.length_singleton] at hturns ⊢
    omega
  · rw [hended]
    exact List.forall_mem_append.mpr ⟨hg.failed, by simpa using hf⟩
  · rw [htried]
    exact List.nodup_append.mpr ⟨hg.nodup, List.nodup_singleton b, by
      intro c hc b' hb' heq
      rw [List.mem_singleton] at hb'
      exact hbn (hb' ▸ heq ▸ hc)⟩
  · rw [htried]
    refine List.forall_mem_append.mpr ⟨hg.listed, ?_⟩
    simpa using hundo ▸ hbl
  · rw [hfirst]
    intro hnone
    simp [hnone] at ht
  · rw [hfirst, htried]
    exact fun t ht => (hreported t ht).2.same (choose_faults he hp hr)
  · obtain ⟨hm, -⟩ := retry_moves hg.held.addrs hat now env hint hr
    funext c
    simp only [Call.advance, RouterSys.hold, hm.conns, hg.net, hb]
    omega

/-- The attempt after which the call returns: it failed and is not counted any more, or it
did not and is. -/
theorem Going.returns (hg : Going id L a x) (hpc : x.sys.threads[id]? = some (.dialled p hint chose a))
    (hd : x.sys.slot p = some d) (hthread : s.threads[id]? = some pc) (hi : pc.idle = true)
    (hleft : ∀ b, connsOf s.router b - connsOf x.sys.router b =
      if connectFailed error then - mark (some a) b else 0) :
    Over L (x.advance id (.connected id error now env) s) := by
  obtain ⟨-, -, ha⟩ := hg.dialled hpc hd
  have hended := advance_ended hpc error now env s
  have hdialling : dialling s id = none := by
    cases pc with
    | out => simp [dialling, hthread]
    | done addr peer => simp [dialling, hthread]
    | holding _ _ _ => cases hi
    | dialled _ _ _ _ => cases hi
  have hattempts : (x.advance id (.connected id error now env) s).attempts = tried x ++ [a] := by
    simp [Call.advance, hdialling, ha]
  have htried : tried (x.advance id (.connected id error now env) s) = tried x ++ [a] := by
    simp [tried, hended]
  have hnet : (x.advance id (.connected id error now env) s).net =
      fun b => mark (some a) b + if connectFailed error then - mark (some a) b else 0 := by
    funext b
    simp only [Call.advance, hg.net, hleft]
  refine ⟨advance_returned hthread hi _ _, hattempts.trans htried.symm, ?_, htried ▸ hg.nodup,
    htried ▸ hg.listed, ?_⟩
  · have hturns := hg.turns
    rw [ha] at hturns
    rw [hattempts, hended]
    simp only [Call.advance, List.length_append, List.length_singleton] at hturns ⊢
    omega
  · rw [hended, hnet]
    cases hf : connectFailed error with
    | true =>
      refine Or.inl ⟨List.forall_mem_append.mpr ⟨hg.failed, by simpa using hf⟩, ?_⟩
      funext b
      simp
    | false =>
      refine Or.inr ⟨x.ended, a, error, rfl, hg.failed, hf, ?_⟩
      funext b
      simp

end returns

theorem connect_failed_iff (error : Int) :
    connectFailed error = true ↔ error ≠ 0 ∧ error ≠ EINPROGRESS := by
  simp [connectFailed]

/-- A step of the thread itself. -/
theorem Going.own (he : cnf.extra = 0) (hp : routerUsesMap cnf = false) (hg : Going id L a x)
    (hs : ClockSteady cnf id x op) (ho : ownStep id op = true) (h : sysStep cnf x.sys op = some s) :
    (∃ b, Going id L b (x.advance id op s)) ∨ Over L (x.advance id op s) := by
  have hheld := step_held hg.held h
  obtain ⟨pc, hpc, hbusy⟩ := hg.stands.busy
  cases op with
  | change env dst ctx => cases ho
  | wake env => cases ho
  | choose env hint => cases ho
  | disconnect now dst failed => cases ho
  | chooseAgain now env hint dst => cases ho
  | connect j env hint =>
    obtain rfl : j = id := by simpa [ownStep] using ho
    -- the thread is inside the call and cannot enter another one
    cases turn_cases h with
    | starts hpc' hi _ =>
      rw [hpc, Option.some.injEq] at hpc'
      simp [busyPc, hpc', hi] at hbusy
    | refused hpc' hi _ =>
      rw [hpc, Option.some.injEq] at hpc'
      simp [busyPc, hpc', hi] at hbusy
  | dial j =>
    obtain rfl : j = id := by simpa [ownStep] using ho
    exact Or.inl ⟨a, hg.dial h⟩
  | connected j error now env =>
    obtain rfl : j = id := by simpa [ownStep] using ho
    cases turn_cases h with
    | retries hpc hd herr hr =>
      obtain ⟨rfl, -, -⟩ := hg.dialled hpc hd
      exact Or.inl (hg.retry he hp hs ((connect_failed_iff _).mpr herr) hpc hd hr hheld)
    | @fails p hint chose peer d _ _ _ r _ hpc hd herr hr =>
      obtain ⟨rfl, hda, -⟩ := hg.dialled hpc hd
      refine Or.inr (hg.returns hpc hd (set_thread hpc .out) rfl fun b => ?_)
      have hat : x.sys.router.addrAt (some p.idx) = some peer := by
        simp [Router.addrAt, slot_listed hd, hda]
      obtain ⟨hm, -⟩ := retry_moves hg.held.addrs hat now env hint hr
      have hconns : connsOf (routerConnectEnd r) b = connsOf r b := rfl
      rw [hconns, hm.conns, (connect_failed_iff _).mpr herr]
      simp [Router.addrAt]
    | connects hpc hd herr =>
      obtain ⟨rfl, -, -⟩ := hg.dialled hpc hd
      refine Or.inr (hg.returns hpc hd (set_thread hpc (.done _ _)) rfl fun b => ?_)
      have hf : connectFailed error = false := by
        rw [← connect_failed_iff, Bool.not_eq_true] at herr
        exact herr
      rw [hf]
      exact sub_self _

/-- A call that has not returned goes on or returns. -/
theorem Going.step (he : cnf.extra = 0) (hp : routerUsesMap cnf = false) (hg : Going id L a x)
    (hs : ClockSteady cnf id x op) (h : callStep cnf id x op = some y) :
    (∃ b, Going id L b y) ∨ Over L y := by
  obtain ⟨s, hstep, rfl⟩ := Option.map_eq_some_iff.mp h
  cases ho : ownStep id op with
  | true =>
    simp only [hg.running, Option.isNone_none, Bool.and_self, ↓reduceIte]
    exact hg.own he hp hs ho hstep
  | false =>
    refine Or.inl ⟨a, hg.other he hp ho (fun t ht c hc => ?_) hstep⟩
    exact (hs hg.running t (by simpa [ho] using ht) c hc).1

theorem Over.step (ho : Over L x) (h : callStep cnf id x op = some y) : Over L y := by
  obtain ⟨s, -, rfl⟩ := Option.map_eq_some_iff.mp h
  have hn : (ownStep id op && x.code.isNone) = false := by simp [ho.code]
  simp only [hn, Bool.false_eq_true, ↓reduceIte]
  exact ⟨ho.code, ho.attempts, ho.turns, ho.nodup, ho.listed, ho.left⟩

/-- The call is entered: a destination is chosen and counted, or there is none. -/
theorem start_going (hh : SlotsHeld s) (h : sysStep cnf s (.connect id env hint) = some s') :
    (∃ a, Going id (listing s.router) a ((Call.start s).advance id (.connect id env hint) s')) ∨
      Over (listing s.router) ((Call.start s).advance id (.connect id env hint) s') := by
  have hheld := step_held hh h
  cases turn_cases h with
  | @starts pc _ _ r i _ hpc _ hr =>
    obtain ⟨hm, hlist, hslot, -⟩ := start_moves hh.addrs env hint hr
    obtain ⟨d, hd⟩ := hslot i rfl
    have hat : r.addrAt (some i) = some d.dst.addr := by simp [Router.addrAt, hd]
    have hthread : (s.hold id r hint i).threads[id]? =
        some (.holding ⟨s.base, i⟩ hint (some d.dst.addr)) := by
      rw [← hat]
      exact set_thread hpc _
    have hmem : d.dst.addr ∈ listing s.router := by
      have hin := hlist _ hat
      rw [addrs_map] at hin
      exact hin
    refine Or.inl ⟨d.dst.addr, hheld, start_listing hr, advance_running hthread rfl _ _, .holding hthread ?_,
      ?_, ?_, ?_, ?_, ?_, ?_, ?_⟩
    · simp [Call.start, Call.advance, tried, dialling, endedBy, hthread]
    · simp [Call.start, Call.advance, dialling, endedBy, hthread]
    · simp [Call.start, Call.advance, endedBy]
    · simp [Call.start, Call.advance, tried, endedBy]
    · simpa [Call.start, Call.advance, tried, endedBy] using hmem
    · simp [Call.start, Call.advance, endedBy]
    · simp [Call.start, Call.advance, failedAt]
    · funext c
      simp [Call.start, Call.advance, RouterSys.hold, hm.conns, hat]
  | @refused pc _ _ r _ hpc _ hr =>
    obtain ⟨hm, -⟩ := start_moves hh.addrs env hint hr
    have hthread := set_thread hpc .out
    refine Or.inr ⟨advance_returned hthread rfl _ _, ?_, ?_, ?_, ?_, Or.inl ⟨?_, ?_⟩⟩
    · simp [Call.start, Call.advance, tried, dialling, endedBy, RouterSys.goto, hthread]
    · simp [Call.start, Call.advance, dialling, endedBy, RouterSys.goto, hthread]
    · simp [Call.start, Call.advance, tried, endedBy]
    · simp [Call.start, Call.advance, tried, endedBy]
    · simp [Call.start, Call.advance, endedBy]
    · funext c
      have hconns : connsOf (routerConnectEnd r) c = connsOf s.router c + mark none c := hm.conns c
      simp [Call.start, Call.advance, hconns]

/-- Inside the call there is always a next step, whatever `connect ()` comes back with. -/
theorem Going.enabled (hg : Going id L a x) (cnf : Cnf) :
    (∃ y, callStep cnf id x (.dial id) = some y) ∨
      ∀ error now env, ∃ y, callStep cnf id x (.connected id error now env) = some y := by
  cases hg.stands with
  | holding hpc _ =>
    obtain ⟨b, _, hslot⟩ := hg.held.slots _ (List.mem_of_getElem? hpc)
    obtain ⟨d, hd, -⟩ := slot_get hslot
    left
    simp [callStep, sysStep, sysDial, hpc, hd]
  | dialled hpc _ =>
    obtain ⟨_, hslot⟩ := hg.held.slots _ (List.mem_of_getElem? hpc)
    obtain ⟨d, hd, -⟩ := slot_get hslot
    right
    intro error now env
    simp only [callStep, sysStep, sysConnected, hpc, hd, Option.map_eq_some_iff]
    split
    · cases routerConnectRetry cnf now env x.sys.router _ _ with
      | mk r ret => cases ret <;> exact ⟨_, _, rfl, rfl⟩
    · exact ⟨_, _, rfl, rfl⟩

end call

section results

theorem nodup_bound {l : List SockAddr} (hn : l.Nodup) (hl : ∀ b ∈ l, b ∈ listing r) :
    l.length ≤ r.dst.length := by
  have hle := (List.subperm_of_subset hn hl).length_le
  simpa [listing] using hle

/-- A call in which every attempt failed does not return what success returns. -/
theorem failed_code {errors : List Int} (h : ∀ e ∈ errors, connectFailed e = true) :
    ∃ e, connectCode errors = -e ∧ connectFailed e = true := by
  refine ⟨errors.getLast?.getD EHOSTDOWN, rfl, ?_⟩
  cases hlast : errors.getLast? with
  | none => rfl
  | some e => exact h e (List.mem_of_getLast? hlast)

/-- The call returns what success returns exactly if an attempt came back with it. -/
theorem Over.code_iff (ho : Over L x) (hv : connectFailed v = false) :
    x.code = some (-v) ↔ ∃ q ∈ x.ended, q.2 = v := by
  rw [ho.code, Option.some.injEq]
  rcases ho.left with ⟨hall, -⟩ | ⟨l, a, e, hl, hall, he, -⟩
  · obtain ⟨e, hc, he⟩ := failed_code (List.forall_mem_map.mpr hall)
    rw [hc, Int.neg_inj]
    constructor
    · rintro rfl
      simp [hv] at he
    · rintro ⟨q, hq, rfl⟩
      simp [hall q hq] at hv
  · have hc : connectCode (x.ended.map Prod.snd) = -e := by simp [connectCode, hl]
    rw [hc, hl, Int.neg_inj]
    constructor
    · rintro rfl
      exact ⟨(a, e), by simp, rfl⟩
    · rintro ⟨q, hq, rfl⟩
      rcases List.mem_append.mp hq with hq | hq
      · simp [hall q hq] at hv
      · rw [List.mem_singleton] at hq
        rw [hq]

/-- At most one attempt of a call did not fail, and the call leaves that one counted. -/
theorem Over.counted (ho : Over L x) :
    (∀ q ∈ x.ended, ∀ q' ∈ x.ended, connectFailed q.2 = false → connectFailed q'.2 = false → q = q') ∧
      ∀ a, x.net a = if ∃ q ∈ x.ended, q.1 = a ∧ connectFailed q.2 = false then 1 else 0 := by
  rcases ho.left with ⟨hall, hnet⟩ | ⟨l, b, e, hl, hall, he, hnet⟩
  · have hnone : ∀ q ∈ x.ended, connectFailed q.2 ≠ false := fun q hq => by simp [hall q hq]
    refine ⟨fun q hq _ _ hf => absurd hf (hnone q hq), fun a => ?_⟩
    rw [hnet, mark_none, if_neg]
    rintro ⟨q, hq, -, hf⟩
    exact hnone q hq hf
  · have hlast : ∀ q ∈ x.ended, connectFailed q.2 = false → q = (b, e) := by
      intro q hq hf
      rcases List.mem_append.mp (hl ▸ hq) with hq | hq
      · simp [hall q hq] at hf
      · exact List.mem_singleton.mp hq
    have hmem : (b, e) ∈ x.ended := hl ▸ List.mem_append_right l List.mem_cons_self
    refine ⟨fun q hq q' hq' hf hf' => (hlast q hq hf).trans (hlast q' hq' hf').symm, fun a => ?_⟩
    rw [hnet, mark_some]
    refine if_congr ⟨?_, ?_⟩ rfl rfl
    · rintro rfl
      exact ⟨(a, e), hmem, rfl, he⟩
    · rintro ⟨q, hq, rfl, hf⟩
      rw [hlast q hq hf]

/-- What holds of one call wherever it is, begun in `s`. The thread takes no more than
`turns` steps; until it returns, its next one is there. When the call has returned, what
it returned, and what it left counted, tell the attempt that did not fail. -/
structure TriesOnce (cnf : Cnf) (id : Nat) (s : RouterSys) (x : Call) : Prop where
  once : x.attempts.Nodup
  listed : ∀ a ∈ x.attempts, a ∈ listing s.router
  bound : x.attempts.length ≤ s.router.dst.length
  turns : x.turns ≤ 2 * s.router.dst.length + 1
  enabled : x.code = none → (∃ y, callStep cnf id x (.dial id) = some y) ∨
    ∀ error now env, ∃ y, callStep cnf id x (.connected id error now env) = some y
  returned : x.code ≠ none → x.attempts = x.ended.map Prod.fst ∧
    (x.code = some 0 ↔ ∃ q ∈ x.ended, q.2 = 0) ∧
    (x.code = some (-EINPROGRESS) ↔ ∃ q ∈ x.ended, q.2 = EINPROGRESS)
  counted : x.code ≠ none →
    (∀ q ∈ x.ended, ∀ q' ∈ x.ended, connectFailed q.2 = false → connectFailed q'.2 = false → q = q') ∧
      ∀ a, x.net a = if ∃ q ∈ x.ended, q.1 = a ∧ connectFailed q.2 = false then 1 else 0

theorem Going.tries (hg : Going id (listing s.router) a x) (cnf : Cnf) : TriesOnce cnf id s x := by
  have hpart : x.attempts <+: tried x ++ [a] := by
    cases hg.stands with
    | holding _ ha => exact ha ▸ List.prefix_append _ _
    | dialled _ ha => exact ha ▸ List.prefix_rfl
  have hn := hg.nodup.sublist hpart.sublist
  have hl : ∀ b ∈ x.attempts, b ∈ listing s.router := fun b hb => hg.listed b (hpart.subset hb)
  have htried := nodup_bound hg.nodup hg.listed
  have hturns := hg.turns
  have hlen := nodup_bound hn hl
  refine ⟨hn, hl, hlen, ?_, fun _ => hg.enabled cnf, ?_, ?_⟩
  · simp only [tried, List.length_append, List.length_map] at htried
    omega
  · exact fun hc => absurd hg.running hc
  · exact fun hc => absurd hg.running hc

theorem Over.tries (ho : Over (listing s.router) x) (cnf : Cnf) (id : Nat) : TriesOnce cnf id s x := by
  have hlen := nodup_bound ho.nodup ho.listed
  have hturns := ho.turns
  refine ⟨ho.attempts ▸ ho.nodup, ho.attempts ▸ ho.listed, ho.attempts ▸ hlen, ?_, ?_, ?_, fun _ => ho.counted⟩
  · rw [ho.attempts] at hturns
    simp only [tried, List.length_map] at hlen hturns
    omega
  · intro hc
    simp [ho.code] at hc
  · exact fun _ => ⟨ho.attempts, ho.code_iff (v := 0) rfl, ho.code_iff rfl⟩

/-- One call of `router_connect_dst`, begun in any state that the protocol of the threads
allows and with whatever the other threads do, calls `connect ()` for a destination at
most once. The loop has no counter: each failure leaves a mark, and no step of any
thread makes a mark older. -/
theorem connect_tries_once (he : cnf.extra = 0)
    (hp : cnf.policy = .least ∨ cnf.policy = .round ∨ cnf.policy = .single) (hh : SlotsHeld s)
    (hs : Along (callStep cnf id) (ClockSteady cnf id) (.start s) (.connect id env hint :: ops))
    (h : exec (callStep cnf id) (.start s) (.connect id env hint :: ops) = some x) :
    TriesOnce cnf id s x := by
  have hmap := plain_policy hp
  rw [exec_cons, Option.bind_eq_some_iff] at h
  obtain ⟨y, hy, hrun⟩ := h
  obtain ⟨s', hstep, hadv⟩ := Option.map_eq_some_iff.mp hy
  have hfirst : y = (Call.start s).advance id (.connect id env hint) s' := by
    simpa [ownStep, Call.start] using hadv.symm
  have keep : ∀ x op y, ((∃ a, Going id (listing s.router) a x) ∨ Over (listing s.router) x) →
      ClockSteady cnf id x op → callStep cnf id x op = some y →
      (∃ a, Going id (listing s.router) a y) ∨ Over (listing s.router) y := by
    rintro x op y (⟨a, hg⟩ | ho) hok hxy
    · exact hg.step he hmap hok hxy
    · exact Or.inr (ho.step hxy)
  rcases exec_keeps keep (hfirst ▸ start_going hh hstep) (hs.2 y hy) hrun with ⟨a, hg⟩ | ho
  · exact hg.tries cnf
  · exact ho.tries cnf id

def listBoth : List SysOp := [listAt 100 serverA 1, listAt 100 serverB 1]

def bothListed : RouterSys := sysReached roundRobin 2 listBoth

/-- A does not answer. Meanwhile another thread has chosen B, whose weight then changes;
the call ends with B. -/
def redirected : List SysOp :=
  [.connect 0 (chooseAt 100) 0, .dial 0, .connect 1 (chooseAt 100) 0, .connected 0 111 101 (chooseAt 101),
    listAt 101 serverB 2, .dial 1, .dial 0, .connected 0 EINPROGRESS 101 (chooseAt 101)]

def redirectedCall : Call :=
  (exec (callStep roundRobin 0) (.start bothListed) redirected).getD (.start bothListed)

theorem connect_tries_once_redirected :
    TriesOnce roundRobin 0 bothListed redirectedCall ∧ redirectedCall.code = some (-EINPROGRESS) ∧
      redirectedCall.attempts = [serverA, serverB] ∧
      redirectedCall.net serverA = 0 ∧ redirectedCall.net serverB = 1 := by
  have hlist : exec (sysStep roundRobin) (RouterSys.init 2) listBoth = some bothListed :=
    exec_getD (RouterSys.init 2) (by decide +kernel)
  have hrun : exec (callStep roundRobin 0) (.start bothListed) redirected = some redirectedCall :=
    exec_getD (Call.start bothListed) (by decide +kernel)
  have hheld : SlotsHeld bothListed := exec_invariant (fun _ _ _ => step_held) (held_init 2) hlist
  refine ⟨connect_tries_once (by decide) (by decide) hheld ?_ hrun, ?_, ?_, ?_, ?_⟩
  all_goals decide +kernel

end results

end Glb.Proofs.ConnectCall
