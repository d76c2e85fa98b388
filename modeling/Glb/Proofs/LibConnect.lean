import Glb.Proofs.LibRouter
import Glb.Proofs.ConnectCall
import Glb.Proofs.Affinity

namespace Glb.Proofs.LibConnect
open Function Lib.Run RouterFrame RouterRun HeldSlot ConnectCall MapShare Affinity LibRouter

variable {cnf : Cnf} {incAddr : SockAddr} {s t : LibProc} {op : LibOp} {ops : List LibOp} {id : Nat}
variable {fd fd' : Fd} {flags : BitVec 32} {app : Option (BitVec 32)} {l l' : LibPc}

/-- The loop of `router_connect_dst` goes on to a destination of the table, or ends. -/
theorem loop_cases (s : LibProc) (id : Nat) (fd : Fd) (flags : BitVec 32) (hint : UInt32) (error : Int)
    (ret : Option Nat) :
    (∃ i peer, ret = some i ∧ s.router.addrAt (some i) = some peer ∧
        libLoop s id fd flags hint error ret = s.goto id (.dialling fd flags hint i peer)) ∨
      libLoop s id fd flags hint error ret = libReturn s id fd flags error none := by
  unfold libLoop
  split
  · rename_i i peer h
    obtain ⟨j, rfl, hj⟩ := Option.bind_eq_some_iff.mp h
    obtain ⟨a, ha, hp⟩ := Option.map_eq_some_iff.mp hj
    obtain ⟨rfl, rfl⟩ := Prod.mk.inj hp
    exact .inl ⟨j, a, rfl, ha, rfl⟩
  · exact .inr rfl

section flags

/-- The flags that the application has set on a socket last. -/
def appSet (fd : Fd) (app : Option (BitVec 32)) : LibOp → Option (BitVec 32)
  | .setfl fd' flags => if fd' = fd then some flags else app
  | _ => app

/-- Whether a thread is connecting the socket. -/
def InUse (s : LibProc) (fd : Fd) : Prop := ∃ pc ∈ s.threads, pc.socket = some fd

/-- The application neither connects a socket nor sets its flags while it is connecting
it. -/
def Apart (fd : Fd) (s : LibProc) : LibOp → Prop
  | .connect _ fd' _ _ _ _ _ => fd' = fd → ¬ InUse s fd
  | .setfl fd' _ => fd' = fd → ¬ InUse s fd
  | _ => True

/-- A socket has the flags that the application gave it, or one thread is connecting it
and holds them. -/
inductive Flagged (fd : Fd) (app : Option (BitVec 32)) (s : LibProc) : Prop
  | free (hu : ∀ j : Nat, (s.threads[j]?).bind LibPc.socket ≠ some fd) (hf : s.flags fd = app)
  | used {id : Nat} {flags : BitVec 32} (hpc : s.threads[id]? = some (.dialling fd flags hint i peer)) (ha : app = some flags)
    (hf : s.flags fd = some (blockFlags flags))
    (hu : ∀ j : Nat, j ≠ id → (s.threads[j]?).bind LibPc.socket ≠ some fd)

theorem not_in_use (h : ¬ InUse s fd) (j : Nat) : (s.threads[j]?).bind LibPc.socket ≠ some fd := by
  intro he
  obtain ⟨pc, hpc, hs⟩ := Option.bind_eq_some_iff.mp he
  exact h ⟨pc, List.mem_of_getElem? hpc, hs⟩

theorem idle_socket (h : l.idle = true) (fd : Fd) : l.socket ≠ some fd := by
  cases l with
  | dialling _ _ _ _ _ => cases h
  | _ => simp [LibPc.socket]

theorem set_socket {ls : List LibPc} {j : Nat} (hl : l'.socket ≠ some fd)
    (h : j ≠ id → (ls[j]?).bind LibPc.socket ≠ some fd) : ((ls.set id l')[j]?).bind LibPc.socket ≠ some fd := by
  by_cases hj : id = j
  · subst hj
    rw [List.getElem?_set_self']
    cases ls[id]? with
    | none => simp
    | some pc => exact hl
  · rw [List.getElem?_set_ne hj]
    exact h (Ne.symm hj)

/-- A thread that has nothing to do with the socket moves on. -/
theorem Flagged.frame (h : Flagged fd app s) (hpc : s.threads[id]? = some l) (hl : l.socket ≠ some fd)
    (hl' : l'.socket ≠ some fd) (hf : t.flags fd = s.flags fd) (ht : t.threads = s.threads.set id l') :
    Flagged fd app t := by
  cases h with
  | free hu hs => exact .free (fun j => ht ▸ set_socket hl' (fun _ => hu j)) (hf.trans hs)
  | @used hint i peer k flags hk ha hs hu =>
    have hne : id ≠ k := by
      rintro rfl
      rw [hk, Option.some.injEq] at hpc
      exact hl (hpc ▸ rfl)
    have hk' : t.threads[k]? = some (.dialling fd flags hint i peer) := by
      rw [ht, List.getElem?_set_ne hne]
      exact hk
    exact .used hk' ha (hf.trans hs) (fun j hj => ht ▸ set_socket hl' (fun _ => hu j hj))

/-- The thread that is connecting the socket is the one that holds its flags. -/
theorem Flagged.holder (h : Flagged fd app s) (hpc : s.threads[id]? = some (.dialling fd flags hint i peer)) :
    app = some flags ∧ s.flags fd = some (blockFlags flags) ∧
      ∀ j : Nat, j ≠ id → (s.threads[j]?).bind LibPc.socket ≠ some fd := by
  cases h with
  | free hu _ => exact absurd (by rw [hpc]; rfl) (hu id)
  | @used hint' i' peer' k flags' hk ha hs hu =>
    have he : id = k := by
      by_contra hne
      exact hu id hne (by rw [hpc]; rfl)
    subst he
    rw [hk, Option.some.injEq, LibPc.dialling.injEq] at hpc
    obtain ⟨_, rfl, _⟩ := hpc
    exact ⟨ha, hs, hu⟩

/-- The flags are set where they are not what they have to be. -/
theorem setfl_flags (c : Prop) [Decidable c] (hf : ¬ c → s.flags fd = some flags) :
    (if c then s.setfl fd flags else s).flags = update s.flags fd (some flags) := by
  split
  · rfl
  · rename_i h
    rw [← hf h, update_eq_self]

theorem return_flags (hf : s.flags fd = some (blockFlags flags)) (id : Nat) (error : Int) (peer : Option SockAddr) :
    (libReturn s id fd flags error peer).flags = update s.flags fd (some flags) := by
  refine setfl_flags (s := { s with router := routerConnectEnd s.router }) _ fun h => ?_
  rw [not_not.mp h]
  exact hf

theorem return_flags_ne (hne : fd' ≠ fd) (s : LibProc) (id : Nat) (flags : BitVec 32) (error : Int)
    (peer : Option SockAddr) : (libReturn s id fd flags error peer).flags fd' = s.flags fd' := by
  unfold libReturn
  split
  · exact update_of_ne hne _ _
  · rfl

theorem begun_flags (hf : s.flags fd = some flags) (r : Router) (next : UInt32) :
    (begun cnf s fd flags r next).flags = update s.flags fd (some (blockFlags flags)) :=
  setfl_flags _ fun h => not_not.mp h ▸ hf

/-- The end of a call puts the flags back. -/
theorem Flagged.returns (hf : s.flags fd = some (blockFlags flags))
    (hu : ∀ j : Nat, j ≠ id → (s.threads[j]?).bind LibPc.socket ≠ some fd) (error : Int) (peer : Option SockAddr) :
    Flagged fd (some flags) (libReturn s id fd flags error peer) := by
  obtain ⟨_, l, hl, ht⟩ := return_frame s id fd flags error peer
  refine .free (fun j => ht ▸ set_socket (idle_socket hl fd) (hu j)) ?_
  rw [return_flags hf, update_self]

/-- The loop of `router_connect_dst` in the thread that is connecting the socket. -/
theorem Flagged.loops (hin : id < s.threads.length) (hf : s.flags fd = some (blockFlags flags))
    (hu : ∀ j : Nat, j ≠ id → (s.threads[j]?).bind LibPc.socket ≠ some fd) (hint : UInt32) (error : Int)
    (ret : Option Nat) : Flagged fd (some flags) (libLoop s id fd flags hint error ret) := by
  rcases loop_cases s id fd flags hint error ret with ⟨i, peer, _, _, h⟩ | h <;> rw [h]
  · refine .used (List.getElem?_set_self hin) rfl hf (fun j hj => ?_)
    show ((s.threads.set id _)[j]?).bind _ ≠ _
    rw [List.getElem?_set_ne (Ne.symm hj)]
    exact hu j hj
  · exact .returns hf hu error none

/- The same in a thread that is connecting another socket. -/

theorem Flagged.returns_other (h : Flagged fd app s) (hpc : s.threads[id]? = some l) (hl : l.socket ≠ some fd)
    (hne : fd' ≠ fd) (hf : t.flags fd = s.flags fd) (ht : t.threads = s.threads) (flags : BitVec 32) (error : Int)
    (peer : Option SockAddr) : Flagged fd app (libReturn t id fd' flags error peer) := by
  obtain ⟨_, l', hl', ht'⟩ := return_frame t id fd' flags error peer
  apply h.frame hpc hl (idle_socket hl' fd)
  · rw [return_flags_ne (Ne.symm hne), hf]
  · rw [ht', ht]

theorem Flagged.loops_other (h : Flagged fd app s) (hpc : s.threads[id]? = some l) (hl : l.socket ≠ some fd)
    (hne : fd' ≠ fd) (hf : t.flags fd = s.flags fd) (ht : t.threads = s.threads) (flags : BitVec 32)
    (hint : UInt32) (error : Int) (ret : Option Nat) :
    Flagged fd app (libLoop t id fd' flags hint error ret) := by
  rcases loop_cases t id fd' flags hint error ret with ⟨i, peer, _, _, h'⟩ | h' <;> rw [h']
  · have hs : (LibPc.dialling fd' flags hint i peer).socket ≠ some fd := fun he => hne (Option.some.inj he)
    exact h.frame hpc hl hs hf (congrArg (List.set · id _) ht)
  · exact h.returns_other hpc hl hne hf ht flags error none

theorem step_flagged (h : Flagged fd app s) (hok : Apart fd s op) (hstep : libStep cnf incAddr s op = some t) :
    Flagged fd (appSet fd app op) t := by
  cases lib_turn_cases hstep with
  | passes hpc hi _ => exact h.frame hpc (idle_socket hi fd) (idle_socket rfl fd) rfl rfl
  | badFd hpc hi _ _ => exact h.frame hpc (idle_socket hi fd) (idle_socket rfl fd) rfl rfl
  | @starts id fd' addr env next real badf l flags r ret hpc hi hm hf hr =>
    have ht := begun_threads cnf s fd' flags r next
    by_cases he : fd' = fd
    · subst he
      have hfree := not_in_use (hok rfl)
      have happ : app = some flags := by
        cases h with
        | free _ hs => exact hs.symm.trans hf
        | used hk _ _ _ => exact absurd (by rw [hk]; rfl) (hfree _)
      subst happ
      apply Flagged.loops
      · rw [ht]
        exact (List.getElem?_eq_some_iff.mp hpc).1
      · rw [begun_flags hf, update_self]
      · exact fun j _ => ht ▸ hfree j
    · refine h.loops_other hpc (idle_socket hi fd) he ?_ ht flags s.seed EHOSTDOWN ret
      rw [begun_flags hf, update_of_ne (Ne.symm he)]
  | @retries id error now env next fd' flags hint i peer r ret hpc he hr =>
    by_cases hfd : fd' = fd
    · subst hfd
      obtain ⟨rfl, hf, hu⟩ := h.holder hpc
      apply Flagged.loops
      · exact (List.getElem?_eq_some_iff.mp hpc).1
      · exact hf
      · exact hu
    · apply h.loops_other hpc (fun he => hfd (Option.some.inj he)) hfd <;> rfl
  | @connects id error now env next fd' flags hint i peer hpc he =>
    by_cases hfd : fd' = fd
    · subst hfd
      obtain ⟨rfl, hf, hu⟩ := h.holder hpc
      exact .returns hf hu error (some peer)
    · exact h.returns_other hpc (fun he => hfd (Option.some.inj he)) hfd rfl rfl flags error (some peer)
  | changes _ =>
    cases h with
    | free hu hf => exact .free hu hf
    | used hpc ha hf hu => exact .used hpc ha hf hu
  | @sets fd' flags =>
    by_cases hfd : fd' = fd
    · subst hfd
      rw [appSet, if_pos rfl]
      exact .free (not_in_use (hok rfl)) (update_self _ _ _)
    · have hf : (s.setfl fd' flags).flags fd = s.flags fd := update_of_ne (Ne.symm hfd) _ _
      rw [appSet, if_neg hfd]
      cases h with
      | free hu hs => exact .free hu (hf.trans hs)
      | used hpc ha hs hu => exact .used hpc ha (hf.trans hs) hu

theorem run_flagged (h : Flagged fd app s) (ha : Along (libStep cnf incAddr) (Apart fd) s ops)
    (hrun : exec (libStep cnf incAddr) s ops = some t) : Flagged fd (ops.foldl (appSet fd) app) t := by
  induction ops generalizing s app with
  | nil =>
    simp only [exec, Option.some.injEq] at hrun
    exact hrun ▸ h
  | cons op ops ih =>
    obtain ⟨u, hu, hrun⟩ := exec_cons_some hrun
    exact ih (step_flagged h ha.1 hu) (ha.2 u hu) hrun

/-- Whatever the threads of a process do, a socket that none of them is connecting has the
flags that the application has set on it; while one is connecting it, it has the same
flags but for the one that makes it non-blocking. -/
theorem flags_restored (n : Nat) (seed : UInt32) (flags : Fd → Option (BitVec 32)) (fd : Fd) (ops : List LibOp)
    (ha : Along (libStep cnf incAddr) (Apart fd) (LibProc.init n seed flags) ops)
    (h : exec (libStep cnf incAddr) (LibProc.init n seed flags) ops = some s) :
    (¬ InUse s fd → s.flags fd = ops.foldl (appSet fd) (flags fd)) ∧
      (InUse s fd → s.flags fd = (ops.foldl (appSet fd) (flags fd)).map blockFlags) := by
  have hinit : Flagged fd (flags fd) (LibProc.init n seed flags) := by
    refine .free (fun j => ?_) rfl
    simp only [LibProc.init, List.getElem?_replicate]
    split <;> exact fun h => by cases h
  cases run_flagged hinit ha h with
  | free hu hf =>
    refine ⟨fun _ => hf, ?_⟩
    rintro ⟨pc, hpc, hs⟩
    obtain ⟨j, hj⟩ := List.mem_iff_getElem?.mp hpc
    exact absurd (by rw [hj]; exact hs) (hu j)
  | used hpc ha hf _ =>
    refine ⟨fun hn => absurd ⟨_, List.mem_of_getElem? hpc, rfl⟩ hn, fun _ => ?_⟩
    rw [ha]
    exact hf

instance (s : LibProc) (fd : Fd) : Decidable (InUse s fd) :=
  inferInstanceAs (Decidable (∃ pc ∈ s.threads, pc.socket = some fd))

instance (fd : Fd) (s : LibProc) : (op : LibOp) → Decidable (Apart fd s op)
  | .connect _ fd' _ _ _ _ _ => inferInstanceAs (Decidable (fd' = fd → ¬ InUse s fd))
  | .connected _ _ _ _ _ | .change _ _ _ => .isTrue trivial
  | .setfl fd' _ => inferInstanceAs (Decidable (fd' = fd → ¬ InUse s fd))

/-- The second call comes back, and the application makes its socket blocking. -/
def oneDone : List LibOp := twoCallers ++ [.connected 1 0 100 (chooseAt 100) 0, .setfl 8 0]

theorem flags_restored_one_done :
    (libReached bothServers 2 oneDone).flags 8 = some 0 ∧
      (libReached bothServers 2 oneDone).flags 7 = some (blockFlags oNonblock) :=
  ⟨(flags_restored 2 5 nonblocking 8 oneDone (by decide +kernel) (exec_getD _ (by decide +kernel))).1 (by decide +kernel),
    (flags_restored 2 5 nonblocking 7 oneDone (by decide +kernel) (exec_getD _ (by decide +kernel))).2 (by decide +kernel)⟩

end flags

section outcome
variable {es : List Int} {hint : UInt32}

/-- Whether a step is a new call by the thread. -/
def newCall (id : Nat) : LibOp → Bool
  | .connect i _ _ _ _ _ _ => i = id
  | _ => false

/-- The error that a step brings the thread back from the real `connect ()` with. -/
def errorOf (id : Nat) : LibOp → Option Int
  | .connected i error _ _ _ => if i = id then some error else none
  | _ => none

/-- Where a call stands after the real `connect ()` came back with these errors: it goes on
while they are failures, and returns what the last one says. -/
inductive Progress (fd : Fd) (flags : BitVec 32) (hint : UInt32) (es : List Int) : Option LibPc → Prop
  | dialling (hes : ∀ e ∈ es, connectFailed e = true) :
    Progress fd flags hint es (some (.dialling fd flags hint i peer))
  | returned {peer : Option SockAddr} (hcode : (ret, errno) = libCode flags (es.getLast?.getD EHOSTDOWN))
    (hes : ∀ e ∈ es.dropLast, connectFailed e = true)
    (hpeer : peer.isSome = es.getLast?.any fun e => !connectFailed e) :
    Progress fd flags hint es (some (.returned ret errno peer))

/-- A thread other than the one that a step belongs to stays where it is. -/
theorem others_stay (hstep : libStep cnf incAddr s op = some t) (hn : newCall id op = false)
    (he : errorOf id op = none) : t.threads[id]? = s.threads[id]? := by
  have hloop : ∀ (u : LibProc) (k : Nat) fd flags hint error ret, k ≠ id →
      (libLoop u k fd flags hint error ret).threads[id]? = u.threads[id]? := by
    intro u k fd flags hint error ret hk
    rcases loop_cases u k fd flags hint error ret with ⟨i, peer, _, _, h⟩ | h <;> rw [h]
    · exact List.getElem?_set_ne hk
    · obtain ⟨_, l, _, ht⟩ := return_frame u k fd flags error none
      rw [ht, List.getElem?_set_ne hk]
  cases lib_turn_cases hstep with
  | passes hpc hi hm => exact List.getElem?_set_ne (by simpa [newCall] using hn)
  | badFd hpc hi hm hf => exact List.getElem?_set_ne (by simpa [newCall] using hn)
  | starts hpc hi hm hf hr =>
    rw [hloop _ _ _ _ _ _ _ (by simpa [newCall] using hn), begun_threads]
  | retries hpc hfail hr => exact hloop _ _ _ _ _ _ _ (by simpa [errorOf] using he)
  | @connects k error now env next fd flags hint i peer hpc hfail =>
    obtain ⟨_, l, _, ht⟩ := return_frame s k fd flags error (some peer)
    rw [ht, List.getElem?_set_ne (by simpa [errorOf] using he)]
  | changes _ => rfl
  | sets => rfl

theorem return_pc (hin : id < s.threads.length) (fd : Fd) (flags : BitVec 32) (error : Int) (peer : Option SockAddr) :
    (libReturn s id fd flags error peer).threads[id]? =
      some (.returned (libCode flags error).1 (libCode flags error).2 peer) := by
  unfold libReturn
  split <;> exact List.getElem?_set_self hin

/-- The loop after one more attempt. -/
theorem loop_progress (hin : id < s.threads.length) (fd : Fd) (flags : BitVec 32) (hint : UInt32) (ret : Option Nat)
    (hes : ∀ e ∈ es, connectFailed e = true) : Progress fd flags hint es
      ((libLoop s id fd flags hint (es.getLast?.getD EHOSTDOWN) ret).threads[id]?) := by
  rcases loop_cases s id fd flags hint (es.getLast?.getD EHOSTDOWN) ret with ⟨i, peer, _, _, h⟩ | h <;> rw [h]
  · rw [show (s.goto id _).threads[id]? = _ from List.getElem?_set_self hin]
    exact .dialling hes
  · rw [return_pc hin]
    refine .returned rfl (fun e he => hes e (List.dropLast_subset es he)) ?_
    cases hl : es.getLast? with
    | none => rfl
    | some e => simp [hes e (List.mem_of_getLast? hl)]

theorem step_progress (h : Progress fd flags hint es (s.threads[id]?)) (hn : newCall id op = false)
    (hstep : libStep cnf incAddr s op = some t) :
    Progress fd flags hint (es ++ (errorOf id op).toList) (t.threads[id]?) := by
  cases he : errorOf id op with
  | none =>
    rw [others_stay hstep hn he, Option.toList_none, List.append_nil]
    exact h
  | some e =>
    have own : ∀ {k : Nat} {error : Int}, (if k = id then some error else none) = some e → k = id ∧ error = e := by
      intro k error h
      split at h
      · exact ⟨‹_›, Option.some.inj h⟩
      · cases h
    rw [Option.toList_some]
    cases lib_turn_cases hstep with
    | @retries k error now env next fd' flags' hint' i peer r ret hpc hfail hr =>
      obtain ⟨rfl, rfl⟩ := own he
      have hin := (List.getElem?_eq_some_iff.mp hpc).1
      rw [hpc] at h
      cases h with
      | dialling hes =>
        have hes' : ∀ x ∈ es ++ [error], connectFailed x = true := by
          intro x hx
          rcases List.mem_append.mp hx with hx | hx
          · exact hes x hx
          · rw [List.mem_singleton.mp hx]
            simp [connectFailed, hfail]
        have hlast : (es ++ [error]).getLast?.getD EHOSTDOWN = error := by simp
        have hloop := loop_progress (s := { s with router := r, seed := libSeed cnf s.seed next }) hin fd flags hint ret hes'
        rwa [hlast] at hloop
    | @connects k error now env next fd' flags' hint' i peer hpc hok =>
      obtain ⟨rfl, rfl⟩ := own he
      have hin := (List.getElem?_eq_some_iff.mp hpc).1
      have hconn : connectFailed error = false := by simpa [connectFailed] using hok
      rw [hpc] at h
      cases h with
      | dialling hes =>
        rw [return_pc hin]
        exact .returned (by simp) (by simpa using hes) (by simp [hconn])
    | _ => cases he

theorem run_progress (h : Progress fd flags hint es (s.threads[id]?)) (hn : ∀ op ∈ ops, newCall id op = false)
    (hrun : exec (libStep cnf incAddr) s ops = some t) :
    Progress fd flags hint (es ++ ops.filterMap (errorOf id)) (t.threads[id]?) := by
  induction ops generalizing s es with
  | nil =>
    simp only [exec, Option.some.injEq] at hrun
    rw [List.filterMap_nil, List.append_nil]
    exact hrun ▸ h
  | cons op ops ih =>
    obtain ⟨u, hu, hrun⟩ := exec_cons_some hrun
    have hnext := ih (step_progress h (hn op List.mem_cons_self) hu)
      (fun op hm => hn op (List.mem_cons_of_mem _ hm)) hrun
    have happ : (op :: ops).filterMap (errorOf id) = (errorOf id op).toList ++ ops.filterMap (errorOf id) := by
      cases he : errorOf id op with
      | none => simp [he]
      | some e => simp [he]
    rwa [happ, ← List.append_assoc]

/-- A thread inside the real `connect ()` has the address of a destination in the table. -/
theorem dialled_listed {a : RouterSys} (h : LibMirrors s a) (hpc : s.threads[id]? = some (.dialling fd flags hint i peer)) :
    peer ∈ listing s.router := by
  obtain ⟨p, chose, hpc', _⟩ := h.dialled hpc
  obtain ⟨_, hslot⟩ := h.held.slots _ (List.mem_of_getElem? hpc')
  obtain ⟨d, _, rfl, hd⟩ := slot_get hslot
  rw [h.router]
  refine List.mem_map.mpr ⟨plainDst d, ?_, rfl⟩
  exact List.mem_map.mpr ⟨d, List.mem_of_getElem? hd, rfl⟩

/-- What an application sees of one call of `connect ()` for the balanced address, whatever
the other threads do meanwhile: it goes to listed destinations as long as they fail, and
then returns what the last attempt says, in the way a socket with its flags does. -/
theorem connect_outcome (hp : cnf.policy ≠ .least) (n : Nat) (seed : UInt32) (sockets : Fd → Option (BitVec 32))
    (before : List LibOp) (hbefore : exec (libStep cnf incAddr) (LibProc.init n seed sockets) before = some s)
    (hm : glbMatchAddress incAddr addr = true) (hf : s.flags fd = some flags)
    (hcall : libStep cnf incAddr s (.connect id fd addr env next real badf) = some t)
    (hrun : exec (libStep cnf incAddr) t ops = some u) (hn : ∀ op ∈ ops, newCall id op = false) :
    Progress fd flags s.seed (ops.filterMap (errorOf id)) (u.threads[id]?) ∧
      ∀ i peer, u.threads[id]? = some (.dialling fd flags s.seed i peer) → peer ∈ listing u.router := by
  constructor
  · have hstart : Progress fd flags s.seed [] (t.threads[id]?) := by
      cases lib_turn_cases hcall with
      | passes _ _ hm' => rw [hm] at hm'; cases hm'
      | badFd _ _ _ hf' => rw [hf] at hf'; cases hf'
      | @starts _ _ _ _ _ _ _ l flags' r ret hpc hi hm' hf' hr =>
        rw [hf, Option.some.injEq] at hf'
        subst hf'
        refine loop_progress ?_ fd flags s.seed ret (List.forall_mem_nil _)
        rw [begun_threads]
        exact (List.getElem?_eq_some_iff.mp hpc).1
    exact run_progress hstart hn hrun
  · intro i peer hpc
    have hall : exec (libStep cnf incAddr) (LibProc.init n seed sockets)
        (before ++ .connect id fd addr env next real badf :: ops) = some u := by
      rw [exec_append, hbefore, Option.bind_some, exec_cons, hcall]
      exact hrun
    obtain ⟨a, _, hmir⟩ := exec_translates (fun _ _ _ _ => lib_step_mirrors hp) (mirrors_init n seed sockets) hall
    exact dialled_listed hmir hpc

/-- A call on a non-blocking socket that is refused by A and accepted by B. -/
def refusedOnce : List LibOp :=
  [callAt 100 1 8, .connected 0 111 100 (chooseAt 100) 0, .connected 1 0 100 (chooseAt 100) 0,
    .connected 0 0 100 (chooseAt 100) 0]

theorem connect_outcome_refused_once :
    ∃ u, exec (libStep bothServers balanced) (libReached bothServers 2 listTwo) (callAt 100 0 7 :: refusedOnce) = some u ∧
      u.threads[0]? = some (.returned (-1) EINPROGRESS (some serverB)) ∧
      Progress 7 oNonblock 5 [111, 0] (u.threads[0]?) := by
  obtain ⟨u, hu, hpc⟩ : ∃ u, exec (libStep bothServers balanced) (libReached bothServers 2 listTwo)
      (callAt 100 0 7 :: refusedOnce) = some u ∧ u.threads[0]? = some (.returned (-1) EINPROGRESS (some serverB)) := by
    rw [← Option.map_eq_some_iff (f := fun u : LibProc => u.threads[0]?)]
    decide +kernel
  refine ⟨u, hu, hpc, ?_⟩
  obtain ⟨t, ht, hrun⟩ := Option.bind_eq_some_iff.mp (exec_cons _ _ _ refusedOnce ▸ hu)
  exact (connect_outcome (by decide) 2 5 nonblocking listTwo (exec_getD _ (by decide +kernel)) (by decide)
    (by decide +kernel) ht hrun (by decide)).1

end outcome

section pinned
variable {r r' : Router} {env : ChooseEnv} {hint : UInt32}

/-- Calls of any thread that do not fail, and changes without effect. -/
def Uneventful (s : LibProc) : LibOp → Prop
  | .connected _ error _ _ _ => connectFailed error = false
  | .change _ dst _ => Ineffective s.router dst
  | _ => True

/-- As long as no rebuild of the map is pending, the library's choice is the owner of the
hint, and leaves the map as it is. -/
theorem lib_choose_owner (hp : cnf.policy = .source) (he : cnf.extra = 0) (h0 : r.mapFailed = 0)
    (h : libChooseDst cnf env r hint = (r', ret)) :
    r'.mapFailed = 0 ∧ pieces r' = pieces r ∧ r'.addrAt ret = owner (pieces r) hint := by
  have hq : routerPolicy cnf env (routerPrepare cnf env.now r) hint = (r', ret) := by
    rw [← h, lib_choose_eq (by simp [hp])]
    rfl
  have halike := policy_alike he env (routerPrepare cnf env.now r) hint
  rw [hq] at halike
  obtain ⟨hd, hf⟩ := @ready_fixed cnf r h0 env.now
  have hps : pieces r' = pieces r := by
    rw [alike_pieces halike, pieces, hd]
    rfl
  refine ⟨halike.mapFailed.trans hf, hps, ?_⟩
  have haddr : (tookOne r' ret).addrAt ret = r'.addrAt ret := by
    cases ret with
    | none => rfl
    | some i => exact (RouterCount.addr_at _ i).trans (RouterCount.count_addrs r' i 1 ▸ (RouterCount.addr_at r' i).symm)
  rw [← haddr, ← @choose_owner cnf env r hint hp he h0, glbRouterChooseDst, choose_eq hq]

/-- The server that a thread is connecting to. -/
def dials : LibPc → Option SockAddr
  | .dialling _ _ _ _ peer => some peer
  | _ => none

/-- The map and the seed are as they were, and the threads that are connecting are all
connecting to the server that owns the seed. -/
structure Pinned (ps : List (SockAddr × ℚ)) (seed : UInt32) (s : LibProc) : Prop where
  settled : s.router.mapFailed = 0
  map : pieces s.router = ps
  seeded : s.seed = seed
  one : ∀ l ∈ s.threads, ∀ peer ∈ dials l, owner ps seed = some peer

theorem Pinned.goto (h : Pinned ps seed s) (hl : ∀ peer ∈ dials l, owner ps seed = some peer) (id : Nat) :
    Pinned ps seed (s.goto id l) := by
  refine ⟨h.settled, h.map, h.seeded, fun l' hm => ?_⟩
  rcases List.mem_or_eq_of_mem_set hm with hm | rfl
  · exact h.one l' hm
  · exact hl

theorem Pinned.returns (h : Pinned ps seed s) (id : Nat) (fd : Fd) (flags : BitVec 32) (error : Int)
    (peer : Option SockAddr) : Pinned ps seed (libReturn s id fd flags error peer) := by
  unfold libReturn
  apply Pinned.goto
  · split <;> exact ⟨h.settled, h.map, h.seeded, h.one⟩
  · simp [dials]

theorem ineffective_change {env : ChangeEnv} (h : Ineffective r dst) : (libRouterChangeDst cnf env r dst ctx).1 = r := by
  unfold Ineffective at h
  unfold libRouterChangeDst libApplyChange
  cases hf : routerFindDst r dst with
  | none =>
    rw [hf] at h
    simp [h]
  | some i =>
    simp only [hf] at h
    obtain ⟨hw, hsame⟩ := h
    cases hd : r.dst[i]? with
    | none => simp [hd]
    | some d =>
      rw [hd, Option.any_some, decide_eq_true_eq] at hsame
      simp [hd, hsame, not_lt.mpr hw]

theorem uneventful_step (hp : cnf.policy = .source) (he : cnf.extra = 0) :
    ∀ s op t, Pinned ps seed s → Uneventful s op → libStep cnf incAddr s op = some t → Pinned ps seed t := by
  intro s op t h hc hstep
  cases lib_turn_cases hstep with
  | passes _ _ _ => exact h.goto (by simp [dials]) _
  | badFd _ _ _ _ => exact h.goto (by simp [dials]) _
  | @starts id fd addr env next real badf l flags r ret hpc hi hm hf hr =>
    obtain ⟨h0, hps, ha⟩ := lib_choose_owner hp he (r := { s.router with busyCount := s.router.busyCount + 1 }) h.settled hr
    have hbegun : Pinned ps seed (begun cnf s fd flags r next) := by
      refine ⟨h0, hps.trans h.map, ?_, ?_⟩
      · show libSeed cnf s.seed next = seed
        rw [libSeed, if_neg (by simp [hp]), h.seeded]
      · rw [begun_threads]
        exact h.one
    rcases loop_cases (begun cnf s fd flags r next) id fd flags s.seed EHOSTDOWN ret with ⟨i, peer, hret, hpeer, hl⟩ | hl <;> rw [hl]
    · refine hbegun.goto (fun peer' hd => ?_) id
      have hp : pieces { s.router with busyCount := s.router.busyCount + 1 } = ps := h.map
      rw [hret, hp, h.seeded] at ha
      exact ha.symm.trans (hpeer.trans hd)
    · exact hbegun.returns id fd flags EHOSTDOWN none
  | retries _ hfail _ => simp [Uneventful, connectFailed, hfail] at hc
  | connects _ _ => exact h.returns _ _ _ _ _
  | changes hw =>
    rw [ineffective_change hc]
    exact h
  | sets => exact ⟨h.settled, h.map, h.seeded, h.one⟩

/-- Under the policy that goes by the client, one process is one client: as long as no
attempt fails and the table stays, all its connections go to one server. -/
theorem process_pinned (hp : cnf.policy = .source) (he : cnf.extra = 0) (h0 : s.router.mapFailed = 0)
    (hidle : ∀ pc ∈ s.threads, pc.idle = true) (ha : Along (libStep cnf incAddr) Uneventful s ops)
    (h : exec (libStep cnf incAddr) s ops = some t) (fd : Fd) (flags : BitVec 32) (hint : UInt32) (i : Nat)
    (peer : SockAddr) (hpc : .dialling fd flags hint i peer ∈ t.threads) :
    owner (pieces s.router) s.seed = some peer := by
  have hs : Pinned (pieces s.router) s.seed s := by
    refine ⟨h0, rfl, rfl, fun l hm peer hd => ?_⟩
    cases l with
    | dialling _ _ _ _ _ => cases hidle _ hm
    | _ => cases hd
  exact (exec_keeps (uneventful_step hp he) hs ha h).one _ hpc peer rfl

instance (s : LibProc) : (op : LibOp) → Decidable (Uneventful s op)
  | .connect _ _ _ _ _ _ _ => .isTrue trivial
  | .connected _ error _ _ _ => inferInstanceAs (Decidable (connectFailed error = false))
  | .change _ dst _ => inferInstanceAs (Decidable (Ineffective s.router dst))
  | .setfl _ _ => .isTrue trivial

/-- Three calls, the second of which is over before the third begins. -/
def threeCalls : List LibOp :=
  [callAt 100 0 7, callAt 101 1 8, .connected 1 0 101 (chooseAt 101) 0, callAt 150 1 9]

theorem process_pinned_three_calls :
    ((exec (libStep sourceMap balanced) (libReached sourceMap 2 listTwo) threeCalls).map fun s => s.threads) =
        some [.dialling 7 oNonblock 5 0 serverA, .dialling 9 oNonblock 5 0 serverA] ∧
      owner (pieces (libReached sourceMap 2 listTwo).router) (libReached sourceMap 2 listTwo).seed = some serverA := by
  obtain ⟨t, ht, hs⟩ : ∃ t, exec (libStep sourceMap balanced) (libReached sourceMap 2 listTwo) threeCalls = some t ∧
      t.threads = [.dialling 7 oNonblock 5 0 serverA, .dialling 9 oNonblock 5 0 serverA] :=
    Option.map_eq_some_iff.mp (by decide +kernel)
  refine ⟨by rw [ht, Option.map_some, hs], ?_⟩
  refine process_pinned rfl rfl (by decide +kernel) (by decide +kernel) (by decide +kernel) ht 7 oNonblock 5 0 serverA ?_
  rw [hs]
  exact List.mem_cons_self

end pinned

end Glb.Proofs.LibConnect
