import Glb.Lib.Tally
import Glb.Proofs.RouterTable

namespace Glb.Proofs.RouterCount
open Function Lib.Keyed Lib.SwapRemove Lib.Tally RouterFrame RouterCore RouterRun RouterTable

variable {cnf : Cnf} {r r' : Router} {i : Nat} {a : SockAddr}

/-- A destination as an account: its address and its number of connections. -/
def account (d : RouterDst) : SockAddr × Int := (d.dst.addr, d.conns)

def book (r : Router) : List (SockAddr × Int) := r.dst.map account

def addrs (r : Router) : List SockAddr := (book r).map Prod.fst

/-- The connections counted for an address; none if it is not listed. -/
def connsOf (r : Router) (a : SockAddr) : Int := ((book r).lookup a).getD 0

/-- Neither the accounts nor the number of connecting threads change. -/
structure BookKept (r r' : Router) : Prop where
  accounts : book r' = book r
  busy : r'.busyCount = r.busyCount

theorem BookKept.refl (r : Router) : BookKept r r := ⟨rfl, rfl⟩

theorem BookKept.trans (h : BookKept r s) (h' : BookKept s t) : BookKept r t :=
  ⟨h'.accounts.trans h.accounts, h'.busy.trans h.busy⟩

theorem kept_of_same (h : SameUpTo core r r') : BookKept r r' := ⟨h.map account (fun _ => rfl), h.busy⟩

theorem redo_book (cnf : Cnf) (now : Int) (r : Router) : BookKept r (routerRedo cnf now r) :=
  kept_of_same (redo_same cnf now r).core

theorem failed_book (cnf : Cnf) (now : Int) (r : Router) (i : Nat) :
    BookKept r (routerDstFailed cnf now r i) :=
  kept_of_same (failed_core cnf now r i)

section accounts

theorem addrs_map (r : Router) : addrs r = r.dst.map dstAddr := by
  unfold addrs book
  rw [List.map_map]
  rfl

/-- The accounts are the array of destinations read as a map. -/
theorem conns_assoc (r : Router) (a : SockAddr) :
    connsOf r a = (assoc dstAddr RouterDst.conns r.dst a).getD 0 := by
  unfold connsOf book assoc
  congr 1
  induction r.dst with
  | nil => rfl
  | cons d l ih =>
    by_cases h : d.dst.addr = a
    · simp [account, dstAddr, h]
    · have hb : (a == d.dst.addr) = false := by simp [Ne.symm h]
      simpa [account, dstAddr, List.lookup_cons, hb, h] using ih

theorem count_addrs (r : Router) (i : Nat) (n : Int) : addrs (r.count i n) = addrs r := by
  rw [addrs_map, addrs_map]
  exact map_modify _ _ _ _ (fun _ => rfl)

theorem kept_addrs (h : BookKept r r') : addrs r' = addrs r := by
  unfold addrs
  rw [h.accounts]

theorem kept_conns (h : BookKept r r') (a : SockAddr) : connsOf r' a = connsOf r a := by
  unfold connsOf
  rw [h.accounts]

theorem conns_of_mem (hn : (addrs r).Nodup) (hd : d ∈ r.dst) : connsOf r d.dst.addr = d.conns := by
  have hmem : assoc dstAddr RouterDst.conns r.dst (dstAddr d) = some d.conns :=
    assoc_mem (addrs_map r ▸ hn) hd
  rw [conns_assoc, show d.dst.addr = dstAddr d from rfl, hmem]
  rfl

theorem count_conns (hn : (addrs r).Nodup) (hd : r.dst[i]? = some d) (n : Int) (x : SockAddr) :
    connsOf (r.count i n) x = connsOf r x + if x = d.dst.addr then n else 0 := by
  have hmap : assoc dstAddr RouterDst.conns (r.count i n).dst =
      update (assoc dstAddr RouterDst.conns r.dst) d.dst.addr (some (d.conns + n)) := by
    refine (assoc_modify _ (fun e => ?_) (addrs_map r ▸ hn) hd).2
    rfl
  by_cases hx : x = d.dst.addr
  · subst hx
    rw [if_pos rfl, conns_of_mem hn (List.mem_of_getElem? hd), conns_assoc, hmap, update_self]
    rfl
  · rw [if_neg hx, Int.add_zero, conns_assoc, conns_assoc, hmap, update_of_ne hx]

theorem addr_listed (hd : r.dst[i]? = some d) : d.dst.addr ∈ addrs r :=
  List.mem_map.mpr ⟨account d, List.mem_map.mpr ⟨d, List.mem_of_getElem? hd, rfl⟩, rfl⟩

/-- What one call does to the accounts: `f` is what it adds for each address. -/
structure Moves (r r' : Router) (f : SockAddr → Int) : Prop where
  addrs : addrs r' = addrs r
  conns : ∀ x, connsOf r' x = connsOf r x + f x

theorem Moves.of_kept (h : BookKept r r') : Moves r r' (fun _ => 0) :=
  ⟨kept_addrs h, fun x => by rw [kept_conns h, Int.add_zero]⟩

theorem Moves.trans (h : Moves r s f) (h' : Moves s t g) : Moves r t (fun x => f x + g x) :=
  ⟨h'.addrs.trans h.addrs, fun x => by rw [h'.conns, h.conns, Int.add_assoc]⟩

theorem count_moves (hn : (addrs r).Nodup) (hd : r.dst[i]? = some d) (n : Int) :
    Moves r (r.count i n) (fun x => if x = d.dst.addr then n else 0) :=
  ⟨count_addrs r i n, fun x => count_conns hn hd n x⟩

theorem addr_at (r : Router) (i : Nat) : r.addrAt (some i) = (addrs r)[i]? := by
  simp [Router.addrAt, addrs, book, account, Function.comp_def]

/-- What a choice does to the accounts. -/
theorem choose_moves (hn : (addrs r).Nodup) (env : ChooseEnv) (hint : UInt32)
    (h : routerChooseDst cnf env r hint = (r', ret)) :
    Moves r r' (mark (r'.addrAt ret)) ∧
      (∀ i, ret = some i → ∃ d, r'.dst[i]? = some d) ∧
      ∀ a, r'.addrAt ret = some a → a ∈ addrs r := by
  rcases choose_picked h with ⟨rfl, hp⟩ | ⟨q, i, rfl, hp, rfl⟩
  · have hm := Moves.of_kept (kept_of_same hp.same)
    exact ⟨⟨hm.addrs, fun x => by rw [hm.conns]; simp [Router.addrAt]⟩, by simp,
      by simp [Router.addrAt]⟩
  · have hk := kept_of_same hp.same
    have hi : i < q.dst.length := hp.same.length ▸ hp.listed i rfl
    have hd : q.dst[i]? = some q.dst[i] := List.getElem?_eq_getElem hi
    have hq : (addrs q).Nodup := (kept_addrs hk).symm ▸ hn
    have haddr : (q.count i 1).addrAt (some i) = some q.dst[i].dst.addr := by
      simp [Router.addrAt, Router.count, hd]
    refine ⟨?_, ?_, ?_⟩
    · have hm := (Moves.of_kept hk).trans (count_moves hq hd 1)
      exact ⟨hm.addrs, fun x => by rw [hm.conns, haddr, mark_some, Int.zero_add]⟩
    · intro j hj
      simp only [Option.some.injEq] at hj
      subst hj
      simp [Router.count, hd]
    · intro a ha
      rw [haddr, Option.some.injEq] at ha
      exact kept_addrs hk ▸ ha ▸ addr_listed hd

/-- What giving up a connection to a listed address does to the accounts. -/
theorem disconnect_moves (cnf : Cnf) (hn : (addrs r).Nodup) (ha : a ∈ addrs r) (now : Int) (failed : Bool) :
    Moves r (glbRouterDisconnect cnf now r a failed) (fun x => - mark (some a) x) := by
  have hcount : ∀ {i d}, r.dst[i]? = some d → d.dst.addr = a →
      Moves r (r.count i (-1)) (fun x => - mark (some a) x) := by
    intro i d hd haddr
    have hm := count_moves hn hd (-1)
    refine ⟨hm.addrs, fun x => ?_⟩
    rw [hm.conns, haddr, mark_some]
    split <;> rfl
  have hc := disconnect_cases cnf now r a failed
  generalize glbRouterDisconnect cnf now r a failed = q at hc ⊢
  cases hc with
  | unlisted h =>
    simp only [addrs, book, List.map_map, List.mem_map] at ha
    obtain ⟨d, hd, hda⟩ := ha
    exact absurd hda (h d hd)
  | counted hd haddr => exact hcount hd haddr
  | @failed i _ hd haddr =>
    have ht := (hcount hd haddr).trans (Moves.of_kept (failed_book cnf now (r.count i (-1)) i))
    simp only [Int.add_zero] at ht
    exact ht

/-- What a request that removes nothing does to the accounts. -/
theorem change_accounts (cnf : Cnf) (hn : (addrs r).Nodup) (hw : 0 ≤ dst.weight) (env : ChangeEnv)
    (ctx : Option CtxId) :
    (addrs (glbRouterChangeDst cnf env r dst ctx).1).Nodup ∧
    (∀ x, connsOf (glbRouterChangeDst cnf env r dst ctx).1 x = connsOf r x) ∧
    addrs r <+: addrs (glbRouterChangeDst cnf env r dst ctx).1 := by
  have hneg : ¬ dst.weight < 0 := not_lt.mpr hw
  have same : ∀ q, BookKept r q → (addrs q).Nodup ∧ (∀ x, connsOf q x = connsOf r x) ∧
      addrs r <+: addrs q := by
    intro q hq
    exact ⟨(kept_addrs hq).symm ▸ hn, kept_conns hq, (kept_addrs hq).symm ▸ List.prefix_refl _⟩
  rw [change_dst_eq]
  cases he : routerEdit env r dst ctx with
  | none => exact same r (BookKept.refl r)
  | some q =>
    have hredo := redo_book cnf env.now q
    cases edit_cases he with
    | added hf _ _ =>
      -- the new account starts with no connections
      have hunique : (r.dst.map dstAddr).Nodup := addrs_map r ▸ hn
      have hnew : assoc dstAddr RouterDst.conns r.dst dst.addr = none := assoc_eq_none.mpr (find_unlisted hf)
      obtain ⟨hn', hmap⟩ : Unique (routerAddDst r (routerNewDst dst ctx env.timeNow)) ∧
          assoc dstAddr RouterDst.conns (routerAddDst r (routerNewDst dst ctx env.timeNow)).dst =
            update (assoc dstAddr RouterDst.conns r.dst) dst.addr (some 0) :=
        assoc_append (x := routerNewDst dst ctx env.timeNow) hunique (find_unlisted hf)
      refine ⟨?_, ?_, ?_⟩
      · rw [kept_addrs hredo, addrs_map]
        exact hn'
      · intro x
        rw [kept_conns hredo, conns_assoc, conns_assoc, hmap]
        by_cases hx : x = dst.addr
        · rw [hx, hnew, update_self]
          rfl
        · rw [update_of_ne hx]
      · rw [kept_addrs hredo, addrs_map, addrs_map, routerAddDst, List.map_append]
        exact List.prefix_append _ _
    | noMemory _ _ _ => exact same _ hredo
    | removed _ _ _ hw => exact absurd hw hneg
    | @weighed i _ _ _ _ _ _ =>
      have hset : BookKept r (routerSetWeight r i dst.weight) :=
        ⟨map_modify _ _ _ _ (fun _ => rfl), rfl⟩
      exact same _ (hset.trans hredo)

/-- What a removal does to the accounts. -/
theorem change_removes (cnf : Cnf) (hn : (addrs r).Nodup) (hw : dst.weight < 0) (env : ChangeEnv)
    (ctx : Option CtxId) :
    (addrs (glbRouterChangeDst cnf env r dst ctx).1).Nodup ∧
    ∀ x ∈ addrs r, x ≠ dst.addr → x ∈ addrs (glbRouterChangeDst cnf env r dst ctx).1 := by
  rw [change_dst_eq]
  cases he : routerEdit env r dst ctx with
  | none => exact ⟨hn, fun x hx _ => hx⟩
  | some q =>
    have hredo := redo_book cnf env.now q
    cases edit_cases he with
    | added _ h _ => exact absurd hw h
    | noMemory _ h _ => exact absurd hw h
    | weighed _ _ _ h _ => exact absurd hw h
    | @removed i d _ hd hda _ =>
      have hperm : (addrs r).Perm (dst.addr :: addrs (routerRemoveDst r i d)) := by
        have := ((swapRemove_perm r.dst i d hd).map account).map Prod.fst
        rw [← hda]
        exact this
      have hn' := hperm.nodup hn
      refine ⟨?_, fun x hx hne => ?_⟩
      · rw [kept_addrs hredo]
        exact (List.nodup_cons.mp hn').2
      · rw [kept_addrs hredo]
        exact List.mem_of_ne_of_mem hne (hperm.mem_iff.mp hx)

end accounts

section busy

theorem choose_busy (h : routerChooseDst cnf env r hint = (r', ret)) : r'.busyCount = r.busyCount := by
  rcases choose_picked h with ⟨_, hp⟩ | ⟨q, i, _, hp, rfl⟩
  · exact hp.same.busy
  · exact hp.same.busy

theorem disconnect_busy (cnf : Cnf) (now : Int) (r : Router) (a : SockAddr) (failed : Bool) :
    (glbRouterDisconnect cnf now r a failed).busyCount = r.busyCount := by
  have hc := disconnect_cases cnf now r a failed
  generalize glbRouterDisconnect cnf now r a failed = q at hc ⊢
  cases hc with
  | unlisted _ => rfl
  | counted _ _ => rfl
  | @failed i _ _ _ => exact (failed_book cnf now (r.count i (-1)) i).busy

theorem change_counters (cnf : Cnf) (env : ChangeEnv) (r : Router) (dst : Dst) (ctx : Option CtxId) :
    (glbRouterChangeDst cnf env r dst ctx).1.busyCount = r.busyCount ∧
      (glbRouterChangeDst cnf env r dst ctx).1.waitCount = r.waitCount := by
  rw [change_dst_eq]
  cases he : routerEdit env r dst ctx with
  | none => exact ⟨rfl, rfl⟩
  | some q =>
    have hredo := redo_same cnf env.now q
    refine ⟨hredo.busy.trans ?_, hredo.wait.trans ?_⟩
    · cases edit_cases he <;> rfl
    · cases edit_cases he <;> rfl

end busy

/-- The first choice of a connecting thread. -/
theorem start_moves (hn : (addrs r).Nodup) (env : ChooseEnv) (hint : UInt32)
    (h : routerConnectStart cnf env r hint = (r', ret)) :
    Moves r r' (mark (r'.addrAt ret)) ∧ (∀ a, r'.addrAt ret = some a → a ∈ addrs r) ∧
      (∀ i, ret = some i → ∃ e, r'.dst[i]? = some e) ∧ r'.busyCount = r.busyCount + 1 := by
  obtain ⟨hm, hin, hlist⟩ := choose_moves (r := { r with busyCount := r.busyCount + 1 }) hn env hint h
  exact ⟨⟨hm.addrs, hm.conns⟩, hlist, hin, choose_busy h⟩

/-- A failed attempt is taken back before the next choice. -/
theorem retry_moves (hn : (addrs r).Nodup) (ha : r.addrAt (some i) = some a) (now : Int)
    (env : ChooseEnv) (hint : UInt32) (h : routerConnectRetry cnf now env r hint i = (r', ret)) :
    Moves r r' (fun x => mark (r'.addrAt ret) x - mark (some a) x) ∧
      (∀ a, r'.addrAt ret = some a → a ∈ addrs r) ∧ (∀ i, ret = some i → ∃ e, r'.dst[i]? = some e) ∧
      r'.busyCount = r.busyCount := by
  obtain ⟨e, he, hea⟩ : ∃ e, r.dst[i]? = some e ∧ e.dst.addr = a := by
    simpa [Router.addrAt] using ha
  have hcount := count_moves hn he (-1)
  have hkept := failed_book cnf now (r.count i (-1)) i
  have hfailed := hcount.trans (Moves.of_kept hkept)
  have hn' : (addrs (routerDstFailed cnf now (r.count i (-1)) i)).Nodup := hfailed.addrs.symm ▸ hn
  obtain ⟨hm, hin, hlist⟩ := choose_moves hn' env hint h
  refine ⟨⟨hm.addrs.trans hfailed.addrs, fun x => ?_⟩, fun a h => hfailed.addrs ▸ hlist a h, hin,
    (choose_busy h).trans hkept.busy⟩
  rw [hm.conns, hfailed.conns, hea, mark_some]
  split <;> omega

end Glb.Proofs.RouterCount
