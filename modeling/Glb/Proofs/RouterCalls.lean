import Glb.Proofs.Blocks
import Glb.Proofs.ConnectCall

namespace Glb.Proofs.RouterCalls
open Function Lib.Run Lib.SwapRemove PoolFrame PoolEvents DaemonSteps Ownership DaemonLedger Registry Blocks
open Lib.Tally RouterFrame RouterCore RouterRun RouterTable HeldSlot ConnectCall

/-- The clocks of the failure reports that a step may make. -/
def reports : DaemonOp → List Int
  | .connected _ now _ => [now]
  | .ctl _ env => [env.now]
  | .write _ _ env _ => [env.now, env.addNow]
  | _ => []

/-- What one step of the daemon may do to the router, call by call. -/
inductive Rewires (cnf : Cnf) (op : DaemonOp) (r : Router) : Router → Prop
  | same : Rewires cnf op r r
  | threads {q : Router} (h : Rewires cnf op r q) (n : Int) : Rewires cnf op r { q with busyCount := n }
  | changed {dst : Dst} {env : ChangeEnv} (ho : op = .request (.change dst) env) :
    Rewires cnf op r (glbRouterChangeDst cnf env r dst none).1
  | chosen {q q' : Router} {env : ChooseEnv} {hint : UInt32} {ret : Option Nat} (h : Rewires cnf op r q)
    (hr : routerChooseDst cnf env q hint = (q', ret)) : Rewires cnf op r q'
  | released {q : Router} (h : Rewires cnf op r q) (i : Nat) : Rewires cnf op r (q.count i (-1))
  | failed {q : Router} {now : Int} (h : Rewires cnf op r q) (hn : now ∈ reports op) (i : Nat) :
    Rewires cnf op r (routerDstFailed cnf now q i)

variable {build : Build} {cnf : Cnf} {ctrl : Ctrl} {d d' : Daemon} {w u : World} {op : DaemonOp}
variable {claim : Owner → Option Fd} {home : Nat → Option Home} {r r' q : Router} {a : SockAddr}
variable {b : Nat} {c c' : Conn} {F : List SockAddr} {t : Int}

section effects

theorem Rewires.disconnect {f : Bool} (h : Rewires cnf op r q) (hn : f = true → now ∈ reports op)
    (a : SockAddr) : Rewires cnf op r (glbRouterDisconnect cnf now q a f) := by
  have hc := disconnect_cases cnf now q a f
  generalize glbRouterDisconnect cnf now q a f = q' at hc ⊢
  cases hc with
  | unlisted _ => exact h
  | counted _ _ => exact h.released _
  | failed _ _ => exact (h.released _).failed (hn rfl) _

theorem Rewires.choose (h : Rewires cnf op r q) (hr : glbRouterChooseDst cnf env q hint = (r', ret)) :
    Rewires cnf op r r' := by
  have hfst : (routerChooseDst cnf env q hint).1 = r' := congrArg Prod.fst hr
  exact h.chosen (Prod.ext hfst rfl)

theorem Rewires.again (h : Rewires cnf op r w.router) (c : Conn) (hn : env.now ∈ reports op) :
    Rewires cnf op r (again cnf w c env).1 :=
  (h.disconnect (fun _ => hn) c.dst.addr).choose rfl

theorem accept_rewires (h : AcceptFate cnf d fd addr env d') : Rewires cnf op d.router d'.router := by
  cases h with
  | turned _ _ => exact .same
  | none r _ _ hr => exact Rewires.same.choose hr
  | noneSync r _ _ hr =>
    have hstart : Rewires cnf op d.router r := (Rewires.same.threads _).chosen hr
    exact hstart.threads _
  | chosen r dst hr => exact Rewires.same.choose hr
  | connecting r i sock _ _ hr => exact (Rewires.same.threads _).chosen hr

theorem connected_rewires (h : ConnectedFate cnf d inc addr sock hint i now env d')
    (hn : now ∈ reports op) : Rewires cnf op d.router d'.router := by
  have hretry : ∀ {r ret}, routerConnectRetry cnf now env d.router hint i = (r, ret) →
      Rewires cnf op d.router r := fun hr => ((Rewires.same.released i).failed hn i).chosen hr
  cases h with
  | retry r j hr => exact hretry hr
  | failed r hr => exact (hretry hr).threads _
  | done dst _ => exact Rewires.same.threads _
  | pending dst _ => exact Rewires.same.threads _

theorem add_rewires (h : AddFate cnf d inc addr sock dst complete d') :
    Rewires cnf op d.router d'.router := by
  cases h with
  | noMemory => exact Rewires.same.disconnect (by simp) dst
  | unsent => exact Rewires.same.disconnect (by simp) dst
  | queued => exact .same

theorem removals_router (hr : Removals cnf w u) : u.router = w.router := by
  refine removals_keep (fun v => v.router = w.router) hr ?_ ?_ ?_ rfl
  · intro v v' hb hv
    exact (congrArg (fun w => w.router) hb).trans hv
  · intro v b c _ _ hv
    exact hv
  · intro v b c _ _ _ hv
    exact hv

theorem write_rewires (hf : WriteFate cnf w b c s env send u)
    (hn : env.now ∈ reports op ∧ env.addNow ∈ reports op) : Rewires cnf op w.router u.router := by
  cases hf with
  | drained _ => exact .same
  | passed _ _ => exact .same
  | broken _ => exact Rewires.same.disconnect (by simp) _
  | refused _ _ _ => exact Rewires.same.again c hn.1
  | moved addr fd _ _ _ _ _ => exact Rewires.same.again c hn.1
  | abandoned addr l _ _ _ _ => exact (Rewires.same.again c hn.1).disconnect (fun _ => hn.2) _

theorem fate_rewires (hf : Fate cnf i w op u) : Rewires cnf op w.router u.router := by
  cases hf with
  | read hh hk hf =>
    cases hf with
    | closed _ _ => exact Rewires.same.disconnect (by simp) _
    | broken _ _ _ _ _ => exact Rewires.same.disconnect (by simp) _
    | _ => exact .same
  | write hh hk hf => exact write_rewires hf (by simp [reports])
  | lost env hp hc hd hl => exact Rewires.same.disconnect (by simp [reports]) _
  | added env hp hc hs =>
    rcases hs with ⟨_, rfl, _⟩ | ⟨_, fd, _, _, rfl, _⟩ <;> exact .same
  | stats env hp => exact .same
  | dropped env hp hw hr =>
    have hrouter := (removals_router hr).trans (congrArg (fun w => w.router) hw)
    exact hrouter.symm ▸ .same
  | shutdown env hp hw hr =>
    have hrouter := (removals_router hr).trans (congrArg (fun w => w.router) hw)
    exact hrouter.symm ▸ .same

/-- The router after a step of the daemon. -/
theorem step_rewires (h : Step cnf ctrl d op d') : Rewires cnf op d.router d'.router := by
  cases h with
  | accept _ _ _ h => exact accept_rewires h
  | connected _ h => exact connected_rewires h (by simp [reports])
  | addConn _ h => exact add_rewires h
  | pool h =>
    obtain ⟨_, _, hf, hb, rfl⟩ := h
    have hrouter := congrArg (fun w => w.router) hb
    have hfate := fate_rewires hf
    exact hrouter.symm ▸ hfate
  | request h =>
    rcases request_router h with hr | ⟨dst, rfl, _, hr⟩ <;> rw [hr]
    · exact .same
    · exact .changed rfl
  | drop dst => exact .same
  | destroy => exact .same

end effects

section kept

theorem Rewires.unique (h : Rewires cnf op r r') (hu : Unique r) : Unique r' := by
  induction h with
  | same => exact hu
  | threads _ n ih => exact ih
  | changed _ => exact change_unique cnf _ _ none hu
  | chosen _ hr ih => exact (congrArg List.Nodup (choose_routed hr).settled.listing).mpr ih
  | released _ i ih => exact count_unique i (-1) ih
  | failed _ _ i ih => exact core_unique (failed_core cnf _ _ i) ih

/-- A change enters nothing into the table but a destination that was not there. -/
theorem change_adds {env : ChangeEnv} {dst : Dst} (h : x ∈ faults (glbRouterChangeDst cnf env r dst ctx).1) :
    x ∈ faults r ∨ (0 ≤ dst.weight ∧ x.1 = dst.addr) := by
  rw [change_dst_eq] at h
  cases he : routerEdit env r dst ctx with
  | none =>
    rw [he] at h
    exact Or.inl h
  | some q =>
    simp only [he] at h
    rw [stem_faults (redo_same cnf env.now q)] at h
    cases edit_cases he with
    | added _ hw _ =>
      simp only [faults, routerAddDst, List.map_append, List.mem_append] at h
      refine h.imp id fun hx => ⟨not_lt.mp hw, ?_⟩
      simp only [List.map_cons, List.map_nil, List.mem_singleton] at hx
      rw [hx]
      rfl
    | noMemory _ _ _ => exact Or.inl h
    | removed _ _ _ _ =>
      obtain ⟨e, he, rfl⟩ := List.mem_map.mp h
      exact Or.inl (List.mem_map_of_mem (mem_of_mem_swapRemove he))
    | @weighed i _ _ _ _ _ _ =>
      have hsame : faults (routerSetWeight r i dst.weight) = faults r :=
        map_modify _ _ _ _ (fun _ => rfl)
      exact Or.inl (hsame ▸ h)

theorem mem_listing : a ∈ listing r ↔ ∃ t, (a, t) ∈ faults r := by
  simp [listing, faults, dstAddr]

theorem change_lists {env : ChangeEnv} {dst : Dst} (h : a ∈ listing (glbRouterChangeDst cnf env r dst ctx).1) :
    a ∈ listing r ∨ (0 ≤ dst.weight ∧ a = dst.addr) := by
  obtain ⟨t, ht⟩ := mem_listing.mp h
  rcases change_adds ht with hx | hx
  · exact Or.inl (mem_listing.mpr ⟨t, hx⟩)
  · exact Or.inr hx

/-- The address that a step may add to the table. -/
def mayList : DaemonOp → Option SockAddr
  | .request (.change dst) _ => if 0 ≤ dst.weight then some dst.addr else none
  | _ => none

/-- Only a request adds to the table. -/
theorem Rewires.listing (h : Rewires cnf op r r') (ha : a ∈ listing r') :
    a ∈ listing r ∨ mayList op = some a := by
  induction h with
  | same => exact Or.inl ha
  | threads _ n ih => exact ih ha
  | changed ho =>
    subst ho
    refine (change_lists ha).imp id fun hx => ?_
    simp [mayList, hx.1, hx.2]
  | chosen _ hr ih => exact ih ((choose_routed hr).settled.listing ▸ ha)
  | released _ i ih => exact ih ((count_routed _ i (-1)).settled.listing ▸ ha)
  | failed _ _ i ih => exact ih ((same_slots_kept (failed_core cnf _ _ i)).listing ▸ ha)

/-- Failure marks do not get older, whatever the threads do, as long as no destination with
a mark is listed afresh. -/
theorem Rewires.marks (he : cnf.extra = 0) (hp : routerUsesMap cnf = false) (h : Rewires cnf op r r')
    (hc : ∀ c ∈ reports op, t ≤ c) (hl : ∀ a ∈ mayList op, a ∉ F) (hm : Marks F t r) : Marks F t r' := by
  induction h with
  | same => exact hm
  | threads _ n ih => exact ih
  | changed ho =>
    subst ho
    intro e he' ha
    have hx : (e.dst.addr, e.failed) ∈ faults _ := List.mem_map_of_mem he'
    rcases change_adds hx with hold | ⟨hw, hnew⟩
    · obtain ⟨e0, he0, heq⟩ := List.mem_map.mp hold
      simp only [Prod.mk.injEq] at heq
      exact heq.2 ▸ hm e0 he0 (heq.1 ▸ ha)
    · have haddr : e.dst.addr = _ := hnew
      exact absurd ha (hl _ (by simp [mayList, hw, haddr]))
  | chosen _ hr ih => exact ih.same (choose_faults he hp hr)
  | released _ i ih => exact ih.same (count_faults _ i (-1))
  | failed _ hn i ih => exact ih.failed (hc _ hn) cnf i

end kept

section aims

/-- Which destination a connection has after a step of a pool: the one it had, and then it
has connected if its server end was written to, or after a failed connect the one that the
router chose next. -/
inductive Aimed (cnf : Cnf) (i : Nat) (w u : World) (op : DaemonOp) (b : Nat) (c' : Conn) : Prop
  | kept {c : Conn} (hc : w.heap b = some c) (ha : c'.dst.addr = c.dst.addr)
    (hw : ∀ fd env send, op = .write i fd env send → w.routeMap fd = some (incPtr b) →
      c'.dst.kind ≠ .incomplete)
  | moved {c : Conn} {env : CompleteEnv} {send : SendOut} (hh : Held w b c)
    (hi : c.dst.kind = .incomplete) (ho : op = .write i c.dst.sock env send)
    (hs : (again cnf w c env).2 = some c'.dst.addr) (hr : u.router = (again cnf w c env).1)
    (hi' : c'.dst.kind = .incomplete)

theorem settled_addr (c : Conn) (s : Side) : (settled c s).dst.addr = c.dst.addr := by
  unfold settled
  split <;> rfl

/-- A descriptor that leads to the client end of a block is that of its server end. -/
theorem server_end (hh : Held w b c) (hr : w.routeMap (side c s).sock = some (incPtr b')) :
    b' = b ∧ s = .dst := by
  rw [hh.route s, Option.some.injEq] at hr
  cases s <;> simp_all [ptr, Side.other, incPtr, dstPtr, poolEndSize]

theorem write_aimed (hh : Held w b c) (hf : WriteFate cnf w b c s env send u) (hc : u.heap b' = some c') :
    Aimed cnf i w u (.write i (side c s).sock env send) b' c' := by
  have hother : b' ≠ b ∧ w.heap b' = some c' →
      Aimed cnf i w u (.write i (side c s).sock env send) b' c' := by
    intro h
    obtain ⟨hne, hc⟩ := h
    refine .kept hc rfl fun fd env' send' ho hr => ?_
    simp only [DaemonOp.write.injEq] at ho
    exact absurd (server_end hh (ho.2.1 ▸ hr)).1 hne
  have hput : ∀ {c1 : Conn}, update w.heap b (some c1) b' = some c' → c1.dst.addr = c.dst.addr →
      (s = .dst → c1.dst.kind ≠ .incomplete) →
      Aimed cnf i w u (.write i (side c s).sock env send) b' c' := by
    intro c1 hc ha hk
    rcases update_eq_some hc with ⟨rfl, hx⟩ | hc
    · simp only [Option.some.injEq] at hx
      subst hx
      refine .kept hh.block ha fun fd env' send' ho hr => ?_
      simp only [DaemonOp.write.injEq] at ho
      exact hk (server_end hh (ho.2.1 ▸ hr)).2
    · exact hother hc
  cases hf with
  | drained _ => exact hput hc (settled_addr c s) (fun hs => hs ▸ settled_complete c)
  | passed _ _ =>
    obtain ⟨_, hkind, haddr⟩ := sent_conn_fixed (settled c s) s send true .dst
    refine hput hc (haddr.trans (settled_addr c s)) fun hs he => ?_
    subst hs
    exact settled_complete c (hkind.symm.trans he)
  | broken _ =>
    obtain ⟨hne, hc⟩ := ended_heap hc
    exact hother ⟨hne, hc⟩
  | refused _ _ _ =>
    obtain ⟨hne, hc⟩ := ended_heap hc
    exact hother ⟨hne, hc⟩
  | moved addr fd hs hi ha _ _ =>
    subst hs
    rw [attached_heap] at hc
    rcases update_eq_some hc with ⟨rfl, hx⟩ | hc
    · simp only [Option.some.injEq] at hx
      exact .moved hh hi rfl (hx ▸ ha) rfl (hx ▸ hi)
    · exact hother hc
  | abandoned _ _ _ _ _ _ =>
    rcases update_eq_some (f := w.heap) hc with ⟨_, hx⟩ | hc
    · cases hx
    · exact hother hc

/-- Only the end of a connect changes the destination. -/
theorem touched_addr (ht : Touched w i b op c c') (ho : ∀ j fd env send, op ≠ .write j fd env send) :
    c'.dst.addr = c.dst.addr := by
  cases ht with
  | read _ _ _ _ _ => exact (read_fixed _ _ _ _ .dst).2.2
  | added hs =>
    rcases hs with ⟨_, _, rfl⟩ | ⟨_, fd, _, _, _, rfl⟩ <;> rfl
  | _ => exact absurd rfl (ho _ _ _ _)

theorem fate_aimed (hf : Fate cnf i w op u) (hc : u.heap b = some c') : Aimed cnf i w u op b c' := by
  by_cases ho : ∃ j fd env send, op = .write j fd env send
  · obtain ⟨j, fd, env, send, rfl⟩ := ho
    cases hf with
    | write hh hk hf => exact write_aimed hh hf hc
  · have hw : ∀ fd env send, op = .write i fd env send → w.routeMap fd = some (incPtr b) →
        c'.dst.kind ≠ .incomplete := fun fd env send he => absurd ⟨i, fd, env, send, he⟩ ho
    rcases fate_touched hf hc with h | ⟨c, h, ht⟩
    · exact .kept h rfl hw
    · exact .kept h (touched_addr ht fun j fd env send he => ho ⟨j, fd, env, send, he⟩) hw

theorem addr_at_listed (h : r.addrAt (some i) = some a) : a ∈ listing r := by
  obtain ⟨e, he, rfl⟩ := Option.map_eq_some_iff.mp h
  exact List.mem_map_of_mem (List.mem_of_getElem? he)

/-- The router chooses what is listed. -/
theorem chosen_listed (h : glbRouterChooseDst cnf env r hint = (r', some a)) : a ∈ listing r := by
  have hret : (routerChooseDst cnf env r hint).1.addrAt (routerChooseDst cnf env r hint).2 = some a :=
    congrArg Prod.snd h
  cases hc : routerChooseDst cnf env r hint with
  | mk q ret =>
    rw [hc] at hret
    rw [← (choose_routed hc).settled.listing]
    cases ret with
    | none => cases hret
    | some i => exact addr_at_listed hret

theorem again_listed (h : (again cnf w c env).2 = some a) : a ∈ listing w.router := by
  have hl := chosen_listed (Prod.ext rfl h : again cnf w c env = (_, some a))
  exact (disconnect_routed cnf env.now w.router c.dst.addr true).settled.listing ▸ hl

/-- The server that the listener has chosen and no pool been given yet. -/
def inHand : Listener → Option SockAddr
  | .chosen _ _ _ dst _ => some dst
  | _ => none

/-- The step found that a connect of the connection in `b` had failed, and began another:
the server that failed, and what the step read from outside. -/
def movedOn (d d' : Daemon) (b : Nat) : DaemonOp → Option (SockAddr × CompleteEnv)
  | .write i fd env _ =>
    if (d.pools[i]?).any (fun p => p.routeMap fd = some (incPtr b)) then
      (d.heap b).bind fun c => (d'.heap b).bind fun c' =>
        if c.dst.kind = .incomplete ∧ c'.dst.kind = .incomplete then some (c.dst.addr, env) else none
    else none
  | _ => none

/-- Where the server of a connection that is in memory after a step comes from. -/
inductive Whence (cnf : Cnf) (d d' : Daemon) (op : DaemonOp) (b : Nat) (c' : Conn) : Prop
  | kept {c : Conn} (hc : d.heap b = some c) (ha : c'.dst.addr = c.dst.addr)
    (hm : movedOn d d' b op = none)
  | moved {p : Pool} {c : Conn} {env : CompleteEnv} (hc : d.heap b = some c)
    (hm : movedOn d d' b op = some (c.dst.addr, env)) (hn : env.now ∈ reports op)
    (hs : (again cnf (d.world p) c env).2 = some c'.dst.addr)
    (hr : d'.router = (again cnf (d.world p) c env).1)
  | new (hb : b = d.nextBlock) (hl : inHand d.listener = some c'.dst.addr)

theorem not_moved {i : Nat} {p : Pool} (hp : d.pools[i]? = some p) (hc : d'.heap b = some c')
    (hw : p.routeMap fd = some (incPtr b) → c'.dst.kind ≠ .incomplete) (env : CompleteEnv) (send : SendOut) :
    movedOn d d' b (.write i fd env send) = none := by
  simp only [movedOn, hp, Option.any_some, hc, Option.bind_some]
  split
  · rename_i hr
    have hk := hw (by simpa using hr)
    cases d.heap b <;> simp [hk]
  · rfl

theorem alloc_whence (hl : d.listener = .chosen inc addr sock dst complete)
    (hc : (allocated d (newConn inc addr sock dst complete)).heap b = some c') :
    Whence cnf d d' (.addConn malloc write) b c' := by
  rcases update_eq_some hc with ⟨hb, hx⟩ | ⟨_, hc⟩
  · simp only [Option.some.injEq] at hx
    refine .new hb ?_
    rw [hl, ← hx]
    rfl
  · exact .kept hc rfl rfl

theorem step_whence (L : Ledger (view d) claim home) (h : daemonStep build cnf ctrl d op = some d')
    (hc : d'.heap b = some c') : Whence cnf d d' op b c' := by
  cases step_cases L h with
  | @pool _ _ i p u w' hs =>
    obtain ⟨hp, _, hf, hb, rfl⟩ := hs
    have hheap := congrFun (congrArg (fun w => w.heap) hb) b
    cases fate_aimed hf (hheap.symm.trans hc) with
    | @kept c h0 ha hw =>
      refine .kept h0 ha ?_
      cases hf with
      | write hh hk hf => exact not_moved hp hc (hw _ _ _ rfl) _ _
      | _ => rfl
    | @moved c env send hh hi ho hs hr hi' =>
      subst ho
      refine .moved hh.block ?_ (by simp [reports]) hs (Eq.trans (congrArg (fun w => w.router) hb) hr)
      have hroute : p.routeMap c.dst.sock = some (incPtr b) := hh.route .dst
      have hblock : d.heap b = some c := hh.block
      simp [movedOn, hp, hroute, hblock, hc, hi, hi']
  | accept _ _ _ h => cases h <;> exact .kept hc rfl rfl
  | connected _ h => cases h <;> exact .kept hc rfl rfl
  | addConn hl h =>
    cases h with
    | noMemory => exact .kept hc rfl rfl
    | unsent => exact alloc_whence hl hc
    | queued => exact alloc_whence hl hc
  | request h =>
    obtain ⟨_, hh, _⟩ := request_frame h
    exact .kept (hh ▸ hc) rfl rfl
  | drop dst => exact .kept hc rfl rfl
  | destroy => exact .kept hc rfl rfl

end aims

section removed

/-- A connection to `a` that was there in `d`, or that the listener was about to make. -/
def Remains (d : Daemon) (a : SockAddr) (b : Nat) : Prop :=
  (∃ c, d.heap b = some c ∧ c.dst.addr = a) ∨ (b = d.nextBlock ∧ inHand d.listener = some a)

/-- How the daemon stands with a server that was not listed in `d0` and has not been listed
since. -/
structure Fades (d0 : Daemon) (a : SockAddr) (d : Daemon) : Prop where
  unlisted : a ∉ listing d.router
  hand : inHand d.listener = some a → d.nextBlock = d0.nextBlock ∧ inHand d0.listener = some a
  blocks : ∀ b c, d.heap b = some c → c.dst.addr = a → Remains d0 a b

theorem Fades.refl (h : a ∉ listing d.router) : Fades d a d :=
  ⟨h, fun hl => ⟨rfl, hl⟩, fun _ c hc ha => Or.inl ⟨c, hc, ha⟩⟩

/-- What the listener holds after a step it held before, or it has chosen it since. -/
theorem step_in_hand (h : Step cnf ctrl d op d') (hl : inHand d'.listener = some a) :
    (d'.listener = d.listener ∧ d'.nextBlock = d.nextBlock) ∨ a ∈ listing d.router := by
  cases h with
  | accept _ _ _ h =>
    cases h with
    | chosen r dst hr => exact Or.inr (Option.some.inj hl ▸ chosen_listed hr)
    | connecting _ _ _ _ _ _ => cases hl
    | _ => exact Or.inl ⟨rfl, rfl⟩
  | connected _ h =>
    cases h with
    | done dst ha => exact Or.inr (Option.some.inj hl ▸ addr_at_listed ha)
    | pending dst ha => exact Or.inr (Option.some.inj hl ▸ addr_at_listed ha)
    | _ => cases hl
  | addConn _ h => cases h <;> cases hl
  | pool h =>
    obtain ⟨_, _, _, _, rfl⟩ := h
    exact Or.inl ⟨rfl, rfl⟩
  | request h =>
    obtain ⟨_, _, _, _, hlst, hnext⟩ := request_frame h
    exact Or.inl ⟨hlst, hnext⟩
  | _ => exact Or.inl ⟨rfl, rfl⟩

theorem Fades.step (hr : Registered d) (hf : Fades d0 a d) (ho : mayList op ≠ some a)
    (h : daemonStep build cnf ctrl d op = some d') : Fades d0 a d' := by
  obtain ⟨claim, home, L⟩ := hr
  have hstep := step_cases L h
  refine ⟨fun hl => ?_, fun hl => ?_, fun b c hc ha => ?_⟩
  · rcases (step_rewires hstep).listing hl with hold | hnew
    · exact hf.unlisted hold
    · exact ho hnew
  · rcases step_in_hand hstep hl with ⟨hsame, hnext⟩ | hlisted
    · rw [hnext]
      exact hf.hand (hsame ▸ hl)
    · exact absurd hlisted hf.unlisted
  · subst ha
    cases step_whence L h hc with
    | @kept c0 h0 ha _ => exact hf.blocks b c0 h0 ha.symm
    | moved _ _ _ hs _ => exact absurd (again_listed hs) hf.unlisted
    | new hb hl =>
      obtain ⟨hnext, hhand⟩ := hf.hand hl
      exact Or.inr ⟨hb.trans hnext, hhand⟩

/-- A removal takes the address out of the table, whatever it answers. -/
theorem change_unlists {dst : Dst} (cnf : Cnf) (hu : Unique r) (hw : dst.weight < 0) (env : ChangeEnv) :
    dst.addr ∉ listing (glbRouterChangeDst cnf env r dst none).1 := by
  rw [change_dst_eq]
  cases he : routerEdit env r dst none with
  | none =>
    rcases edit_idle he with ⟨hf, _⟩ | ⟨_, _, _, _, _, hn⟩
    · exact find_unlisted hf
    · exact absurd hw hn
  | some q =>
    have hredo := (same_slots_kept (redo_same cnf env.now q).core).listing
    simp only [hredo]
    cases edit_cases he with
    | added _ hn _ => exact absurd hw hn
    | noMemory _ hn _ => exact absurd hw hn
    | weighed _ _ _ hn _ => exact absurd hw hn
    | @removed i d _ hd ha _ =>
      have hgone := (remove_table hu hd).2
      rw [← ha]
      exact Lib.Keyed.assoc_eq_none.mp (show table _ (dstAddr d) = none by rw [hgone, update_self])

/-- A change that does not have to wait is made, whether it succeeds or not. -/
theorem request_changes {dst : Dst} {env : ChangeEnv}
    (h : ctrlHandleRequest cnf ctrl d (.change dst) env = some d') :
    d'.router = (glbRouterChangeDst cnf env d.router dst none).1 := by
  simp only [ctrlHandleRequest] at h
  split at h
  · cases h
  · split at h <;> simp only [Option.some.injEq] at h <;> subst h
    · rfl
    · split <;> rfl

theorem init_unique (pipes : List Fd) (used : Fd → Bool) :
    Unique (Daemon.init pipes used Router.init).router := List.nodup_nil

theorem unique_step (hd : Registered d ∧ Unique d.router) (h : daemonStep build cnf ctrl d op = some d') :
    Registered d' ∧ Unique d'.router := by
  obtain ⟨hr, hu⟩ := hd
  obtain ⟨claim, home, L⟩ := hr
  exact ⟨registered_step ⟨claim, home, L⟩ h, (step_rewires (step_cases L h)).unique hu⟩

/-- A server that a control request has removed from a daemon without a watchdog is out of
service. As long as no request lists it again, it stays out of the table, and the
connections to it are some of those that were there when it was removed, together with the
one for which the listener had already chosen it. This holds with every policy and in every
interleaving, of clients that arrive, of failed connects that are tried elsewhere, and of
other requests. With a watchdog the request goes to that one and is no step here. -/
theorem removed_gets_no_client {dst : Dst} {cenv : ChangeEnv} (hn : pipes.Nodup)
    (hu : ∀ fd ∈ pipes, 0 < fd ∧ used fd = true) (hw : dst.weight < 0)
    (hpre : exec (daemonStep build cnf ctrl) (Daemon.init pipes used Router.init) pre = some d0)
    (hreq : daemonStep build cnf ctrl d0 (.request (.change dst) cenv) = some d)
    (hops : ∀ op ∈ ops, mayList op ≠ some dst.addr)
    (h : exec (daemonStep build cnf ctrl) d ops = some d') :
    dst.addr ∉ listing d'.router ∧
      ∀ b c, d'.heap b = some c → c.dst.addr = dst.addr → Remains d dst.addr b := by
  have hinit : Registered (Daemon.init pipes used Router.init) ∧
      Unique (Daemon.init pipes used Router.init).router :=
    ⟨registered_init hn hu Router.init, init_unique pipes used⟩
  have h0 := exec_invariant (fun _ _ _ => unique_step) hinit hpre
  have h1 := unique_step h0 hreq
  have hout : dst.addr ∉ listing d.router := by
    rw [request_changes hreq]
    exact change_unlists cnf h0.2 hw cenv
  have keep : ∀ e op e', Registered e ∧ Fades d dst.addr e → True ∧ mayList op ≠ some dst.addr →
      daemonStep build cnf ctrl e op = some e' → Registered e' ∧ Fades d dst.addr e' := by
    intro e op e' he ho hstep
    exact ⟨registered_step he.1 hstep, he.2.step he.1 ho.2 hstep⟩
  have hlast := exec_keeps keep ⟨h1.1, Fades.refl hout⟩ (along_labels (along_true _ d ops) hops) h
  exact ⟨hlast.2.unlisted, hlast.2.blocks⟩

/-- A is removed while the listener has a second client for it. -/
def lateClient : List DaemonOp := connectA ++ [.accept 8 clientAddr (-1) (chooseAt 100)]

/-- The second client still gets A, a third one nobody. -/
def afterRemoval : List DaemonOp :=
  [.addConn true true, .ctl 0 ⟨.socket 9 EINPROGRESS, 100, fun _ => serverB⟩,
    .accept 10 clientAddr (-1) (chooseAt 100)]

def removeServer : DaemonOp := .request (.change ⟨serverA, -1⟩) ⟨100, 100, true⟩

theorem removed_gets_no_client_late :
    serverA ∉ listing (reachedBy leastConns (lateClient ++ removeServer :: afterRemoval)).router ∧
      (∃ c, (reachedBy leastConns (lateClient ++ removeServer :: afterRemoval)).heap 1 = some c ∧
        c.dst.addr = serverA) ∧
      Remains (reachedBy leastConns (lateClient ++ [removeServer])) serverA 1 := by
  have hpre := reached_by leastConns lateClient (by decide +kernel)
  have hmid := reached_by leastConns (lateClient ++ [removeServer]) (by decide +kernel)
  have hlast := reached_by leastConns (lateClient ++ removeServer :: afterRemoval) (by decide +kernel)
  rw [exec_append, hpre, Option.bind_some, exec_cons] at hmid hlast
  obtain ⟨d, hd, hone⟩ := Option.bind_eq_some_iff.mp hmid
  rw [hd, Option.bind_some] at hlast
  simp only [exec, Option.some.injEq] at hone
  subst hone
  obtain ⟨hout, hblocks⟩ := removed_gets_no_client (by simp) (by decide) (by decide) hpre hd
    (by decide) hlast
  obtain ⟨c, hc, ha⟩ := Option.map_eq_some_iff.mp (show ((reachedBy leastConns
    (lateClient ++ removeServer :: afterRemoval)).heap 1).map (fun c => c.dst.addr) = some serverA by
      decide +kernel)
  exact ⟨hout, ⟨c, hc, ha⟩, hblocks 1 c hc ha⟩

end removed

end Glb.Proofs.RouterCalls
