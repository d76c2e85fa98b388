import Glb.Lib.Keyed
import Glb.Lib.Run
import Glb.Proofs.RouterCore
import Glb.Proofs.RouterRun

namespace Glb.Proofs.RouterTable
open Function Lib.Keyed Lib.Run Lib.SwapRemove RouterFrame RouterCore RouterRun

variable {cnf : Cnf} {r r' : Router} {i : Nat} {d : RouterDst} {a : SockAddr}

/-- What the table says about one address. -/
structure Entry where
  weight : ℚ
  conns : Int
  failed : Int
  probeCtx : Option CtxId
  deriving DecidableEq

/-- The map that the table stands for. -/
abbrev Table := SockAddr → Option Entry

def dstAddr (d : RouterDst) : SockAddr := d.dst.addr

def entry (d : RouterDst) : Entry := ⟨d.dst.weight, d.conns, d.failed, d.probeCtx⟩

/-- The array of destinations, read as a finite map. -/
def table (r : Router) : Table := assoc dstAddr entry r.dst

/-- No address is listed twice. -/
def Unique (r : Router) : Prop := (r.dst.map dstAddr).Nodup

/-- What a change of one destination means for the map. -/
def changeEntry (t : Table) (dst : Dst) (probeCtx : Option CtxId) : Table :=
  match t dst.addr with
  | none => if dst.weight < 0 then t else update t dst.addr (some ⟨dst.weight, 0, 0, probeCtx⟩)
  | some e =>
    if dst.weight < 0 then update t dst.addr none
    else update t dst.addr (some { e with weight := dst.weight })

section frames

theorem stem_table (h : SameUpTo stem r r') (hu : Unique r) : Unique r' ∧ table r' = table r := by
  have hk : r'.dst.map dstAddr = r.dst.map dstAddr := h.map dstAddr (fun _ => rfl)
  refine ⟨?_, ?_⟩
  · unfold Unique
    rw [hk]
    exact hu
  · apply assoc_congr hu
    have hm := h.map (fun d => (dstAddr d, entry d)) (fun _ => rfl)
    exact hm ▸ List.Perm.refl _

theorem core_unique (h : SameUpTo core r r') (hu : Unique r) : Unique r' := by
  unfold Unique
  rw [h.map dstAddr (fun _ => rfl)]
  exact hu

theorem count_unique (i : Nat) (n : Int) (hu : Unique r) : Unique (r.count i n) := by
  have hk : (r.count i n).dst.map dstAddr = r.dst.map dstAddr := map_modify _ _ _ _ (fun _ => rfl)
  unfold Unique
  rw [hk]
  exact hu

/-- What no choice and no release changes of an entry. -/
def Entry.fixed (e : Entry) : ℚ × Option CtxId := (e.weight, e.probeCtx)

/-- What the map keeps through routing: which addresses are listed, with which
weights and probes. -/
def fixed (r : Router) (a : SockAddr) : Option (ℚ × Option CtxId) := (table r a).map Entry.fixed

theorem fixed_eq (r : Router) : fixed r = assoc dstAddr (fun d => (entry d).fixed) r.dst := by
  funext a
  simp [fixed, table, assoc, Function.comp_def]

theorem core_fixed (h : SameUpTo core r r') (hu : Unique r) : fixed r' = fixed r := by
  rw [fixed_eq, fixed_eq]
  apply assoc_congr hu
  have hm := h.map (fun d => (dstAddr d, (entry d).fixed)) (fun _ => rfl)
  exact hm ▸ List.Perm.refl _

theorem count_fixed (i : Nat) (n : Int) (hu : Unique r) : fixed (r.count i n) = fixed r := by
  rw [fixed_eq, fixed_eq]
  apply assoc_congr hu
  have hm : (r.count i n).dst.map (fun d => (dstAddr d, (entry d).fixed)) =
      r.dst.map (fun d => (dstAddr d, (entry d).fixed)) := map_modify _ _ _ _ (fun _ => rfl)
  exact hm ▸ List.Perm.refl _

end frames

section change
variable {env : ChangeEnv} {dst : Dst} {ctx : Option CtxId}

theorem find_unlisted (h : routerFindDst r dst = none) : dst.addr ∉ r.dst.map dstAddr := by
  intro hm
  obtain ⟨d, hd, hda⟩ := List.mem_map.mp hm
  exact find_dst_none h d hd hda

theorem table_get (hu : Unique r) (hd : r.dst[i]? = some d) : table r (dstAddr d) = some (entry d) :=
  assoc_mem hu (List.mem_of_getElem? hd)

theorem add_table (hu : Unique r) (hf : routerFindDst r dst = none) (timeNow : Int) :
    Unique (routerAddDst r (routerNewDst dst ctx timeNow)) ∧
      table (routerAddDst r (routerNewDst dst ctx timeNow)) =
        update (table r) dst.addr (some ⟨dst.weight, 0, 0, ctx⟩) :=
  assoc_append (x := routerNewDst dst ctx timeNow) hu (find_unlisted hf)

theorem remove_table (hu : Unique r) (hd : r.dst[i]? = some d) :
    Unique (routerRemoveDst r i d) ∧
      table (routerRemoveDst r i d) = update (table r) (dstAddr d) none :=
  assoc_swapRemove hu hd

theorem set_weight_table (hu : Unique r) (hd : r.dst[i]? = some d) (w : ℚ) :
    Unique (routerSetWeight r i w) ∧ table (routerSetWeight r i w) =
      update (table r) (dstAddr d) (some { entry d with weight := w }) :=
  assoc_modify (fun d : RouterDst =>
    { d with
      dst := { d.dst with weight := w }
      usage := routerDstUsage { d with dst := { d.dst with weight := w } } }) (fun _ => rfl) hu hd

theorem add_placed (h : Placed r) (d : RouterDst) : Placed (routerAddDst r d) := by
  refine ⟨?_, nofun⟩
  simp only [routerAddDst, List.length_append, List.length_cons, List.length_nil]
  have hc := h.cursor
  omega

theorem remove_placed (r : Router) (i : Nat) (d : RouterDst) : Placed (routerRemoveDst r i d) := by
  refine ⟨?_, nofun⟩
  simp only [routerRemoveDst]
  split
  · exact Or.inl rfl
  · rename_i hne
    exact Or.inr (Nat.mod_lt _ (Nat.pos_of_ne_zero hne))

/-- The table as an array: nothing listed twice, cursor and pointer inside. -/
structure TableSound (r : Router) : Prop extends Placed r where
  unique : Unique r

theorem sound_init : TableSound Router.init := ⟨⟨Or.inl rfl, nofun⟩, List.nodup_nil⟩

theorem TableSound.redo (cnf : Cnf) (now : Int) (h : TableSound r) : TableSound (routerRedo cnf now r) :=
  ⟨redo_placed cnf now h.toPlaced, (stem_table (redo_same cnf now r) h.unique).1⟩

theorem edit_unique (hu : Unique r) (he : Edit env r dst ctx r') : Unique r' := by
  cases he with
  | added hf _ _ => exact (add_table hu hf env.timeNow).1
  | noMemory _ _ _ => exact hu
  | removed _ hd _ _ => exact (remove_table hu hd).1
  | weighed _ hd _ _ _ => exact (set_weight_table hu hd dst.weight).1

/-- Every effective change keeps the array in order. -/
theorem edit_sound (h : TableSound r) (he : Edit env r dst ctx r') : TableSound r' := by
  refine ⟨?_, edit_unique h.unique he⟩
  cases he with
  | added _ _ _ => exact add_placed h.toPlaced _
  | noMemory _ _ _ => exact h.toPlaced
  | @removed i d _ _ _ _ => exact remove_placed r i d
  | weighed _ _ _ _ _ => exact h.toPlaced.same (by simp [routerSetWeight]) rfl rfl

theorem change_sound (cnf : Cnf) (env : ChangeEnv) (dst : Dst) (ctx : Option CtxId) (h : TableSound r) :
    TableSound (glbRouterChangeDst cnf env r dst ctx).1 := by
  rw [change_dst_eq]
  cases he : routerEdit env r dst ctx with
  | none => exact h
  | some q => exact (edit_sound h (edit_cases he)).redo cnf env.now

/-- An effective change is the change of the map. -/
theorem edit_table (hu : Unique r) (hm : env.realloc = true) (he : Edit env r dst ctx r') :
    Unique r' ∧ table r' = changeEntry (table r) dst ctx := by
  unfold changeEntry
  cases he with
  | added hf hw _ =>
    have hnone : table r dst.addr = none := assoc_eq_none.mpr (find_unlisted hf)
    simp only [hnone, hw, ↓reduceIte]
    exact add_table hu hf env.timeNow
  | noMemory _ _ h =>
    rw [hm] at h
    cases h
  | removed _ hd ha hw =>
    rw [← ha]
    have hsome := table_get hu hd
    simp only [dstAddr] at hsome
    simp only [hsome, hw, ↓reduceIte]
    exact remove_table hu hd
  | weighed _ hd ha hw _ =>
    rw [← ha]
    have hsome := table_get hu hd
    simp only [dstAddr] at hsome
    simp only [hsome, hw, ↓reduceIte]
    exact set_weight_table hu hd dst.weight

/-- A change without effect is one that leaves the map as it is. -/
theorem idle_table (hu : Unique r) (he : routerEdit env r dst ctx = none) :
    changeEntry (table r) dst ctx = table r := by
  unfold changeEntry
  rcases edit_idle he with ⟨hf, hw⟩ | ⟨i, d, _, hd, rfl, hw⟩
  · have hnone : table r dst.addr = none := assoc_eq_none.mpr (find_unlisted hf)
    simp only [hnone, hw, ↓reduceIte]
  · have hsome : table r d.dst.addr = some (entry d) := table_get hu hd
    simp only [hsome, hw, ↓reduceIte]
    have hid : { entry d with weight := d.dst.weight } = entry d := rfl
    rw [hid, ← hsome, update_eq_self]

theorem change_table (cnf : Cnf) (hu : Unique r) (hm : env.realloc = true) :
    table (glbRouterChangeDst cnf env r dst ctx).1 = changeEntry (table r) dst ctx := by
  rw [change_dst_eq]
  cases he : routerEdit env r dst ctx with
  | none => exact (idle_table hu he).symm
  | some q =>
    obtain ⟨hq, ht⟩ := edit_table hu hm (edit_cases he)
    rw [← ht]
    exact (stem_table (redo_same cnf env.now q) hq).2

/-- Addresses, weights and counts of the table, and the total. -/
def ledger (r : Router) : List (SockAddr × ℚ × Int) × Int :=
  (r.dst.map (fun d => (d.dst.addr, d.dst.weight, d.conns)), r.conns)

theorem redo_ledger (cnf : Cnf) (now : Int) (r : Router) : ledger (routerRedo cnf now r) = ledger r := by
  have h := redo_same cnf now r
  rw [ledger, ledger, h.conns, h.map (fun d => (d.dst.addr, d.dst.weight, d.conns)) (fun _ => rfl)]

/-- A removal from a table of two or more whose `realloc` gives no memory. -/
def StuckRemoval (env : ChangeEnv) (r : Router) (dst : Dst) : Prop :=
  dst.weight < 0 ∧ env.realloc = false ∧ 2 ≤ r.dst.length ∧ ∃ d ∈ r.dst, d.dst.addr = dst.addr

/-- The three ways to a negative code. -/
theorem change_fails_iff (cnf : Cnf) : (glbRouterChangeDst cnf env r dst ctx).2 < 0 ↔
    (routerFindDst r dst = none ∧ (dst.weight < 0 ∨ env.realloc = false)) ∨
      StuckRemoval env r dst := by
  unfold glbRouterChangeDst
  cases hf : routerFindDst r dst with
  | none =>
    have hfree : ¬ StuckRemoval env r dst := fun ⟨_, _, _, d, hd, ha⟩ => find_dst_none hf d hd ha
    by_cases hw : dst.weight < 0
    · simp [hw, ENONET]
    · cases hm : env.realloc <;> simp [hw, hm, hfree, routerApplyChange, ENOMEM]
  | some i =>
    obtain ⟨d, hd, ha⟩ := find_dst_some hf
    have hi : ¬ ((i : Int) < 0) := by omega
    by_cases hw : dst.weight < 0
    · have hlen : (routerRemoveDst r i d).dst.length = r.dst.length - 1 := by simp [routerRemoveDst]
      have hstuck : StuckRemoval env r dst ↔ env.realloc = false ∧ 2 ≤ r.dst.length :=
        ⟨fun h => ⟨h.2.1, h.2.2.1⟩, fun h => ⟨hw, h.1, h.2, d, List.mem_of_getElem? hd, ha⟩⟩
      cases hm : env.realloc with
      | true => simp [hw, hm, hstuck, routerApplyChange, hd, hi]
      | false =>
        by_cases h2 : 2 ≤ r.dst.length
        · have hpos : 0 < r.dst.length - 1 := by omega
          simp [hw, hm, hstuck, routerApplyChange, hd, hlen, h2, hpos, ENOMEM]
        · have hzero : ¬ 0 < r.dst.length - 1 := by omega
          simp [hw, hm, hstuck, routerApplyChange, hd, hlen, h2, hzero, hi]
    · have hfree : ¬ StuckRemoval env r dst := fun h => hw h.1
      by_cases he : d.dst.weight = dst.weight <;> simp [hw, routerApplyChange, hd, he, hi, hfree]

theorem missing_kept (cnf : Cnf) (hf : routerFindDst r dst = none)
    (h : dst.weight < 0 ∨ env.realloc = false) :
    ledger (glbRouterChangeDst cnf env r dst ctx).1 = ledger r := by
  rw [change_dst_eq]
  unfold routerEdit
  by_cases hw : dst.weight < 0
  · simp [hf, hw]
  · simp [hf, hw, h.resolve_left hw, redo_ledger]

theorem stuck_lost (cnf : Cnf) (h : StuckRemoval env r dst) :
    ledger (glbRouterChangeDst cnf env r dst ctx).1 ≠ ledger r := by
  obtain ⟨hw, _, h2, e, he, hea⟩ := h
  rw [change_dst_eq]
  unfold routerEdit
  cases hf : routerFindDst r dst with
  | none => exact absurd hea (find_dst_none hf e he)
  | some i =>
    obtain ⟨d, hd, _⟩ := find_dst_some hf
    simp only [hd, hw, ↓reduceIte, redo_ledger]
    intro hled
    have hlen := congrArg (fun l => l.1.length) hled
    simp only [ledger, List.length_map, routerRemoveDst, swapRemove_length] at hlen
    omega

/-- A change that returns a negative code leaves the table alone, unless it is a
removal that does not get its smaller array: that one returns `-ENOMEM` when the
destination is already gone. -/
theorem failed_change_keeps_iff (cnf : Cnf) (env : ChangeEnv) (r : Router) (dst : Dst)
    (ctx : Option CtxId) :
    ((glbRouterChangeDst cnf env r dst ctx).2 < 0 →
      ledger (glbRouterChangeDst cnf env r dst ctx).1 = ledger r) ↔ ¬ StuckRemoval env r dst := by
  rw [change_fails_iff]
  constructor
  · intro hkeep hstuck
    exact stuck_lost cnf hstuck (hkeep (Or.inr hstuck))
  · rintro hfree (⟨hf, h⟩ | hstuck)
    · exact missing_kept cnf hf h
    · exact absurd hstuck hfree

theorem find_none_iff : routerFindDst r dst = none ↔ table r dst.addr = none := by
  refine ⟨fun hf => assoc_eq_none.mpr (find_unlisted hf), fun ht => ?_⟩
  cases hf : routerFindDst r dst with
  | none => rfl
  | some i =>
    obtain ⟨d, hd, ha⟩ := find_dst_some hf
    rw [← ha] at ht
    exact absurd (List.mem_map_of_mem (List.mem_of_getElem? hd)) (assoc_eq_none.mp ht)

/-- With memory the code returned is negative exactly when there is nothing to remove,
and then nothing changed. -/
theorem change_code (cnf : Cnf) (hm : env.realloc = true) :
    ((glbRouterChangeDst cnf env r dst ctx).2 < 0 ↔ table r dst.addr = none ∧ dst.weight < 0) ∧
    (table r dst.addr = none → dst.weight < 0 → (glbRouterChangeDst cnf env r dst ctx).1 = r) := by
  refine ⟨?_, ?_⟩
  · rw [change_fails_iff, find_none_iff]
    simp [StuckRemoval, hm]
  · intro hnone hw
    have hf := find_none_iff.mpr hnone
    simp [change_dst_eq, routerEdit, hf, hw]

def roundRobin : Cnf := ⟨.round, true, 10 ^ 9, 0, 100, false, false, 0⟩

/-- B is removed from a table of two while no memory is to be had. -/
theorem failed_change_removes :
    let r := reached roundRobin [setAt 100 serverA 1, setAt 100 serverB 1]
    let q := glbRouterChangeDst roundRobin ⟨101, 101, false⟩ r ⟨serverB, -1⟩ none
    q.2 = -ENOMEM ∧ ledger r = ([(serverA, 1, 0), (serverB, 1, 0)], 0) ∧
      ledger q.1 = ([(serverA, 1, 0)], 0) := by
  decide +kernel

end change

section routing

/-- Choices, releases and failure reports keep the array in order and change
nothing but counts and marks. -/
structure Routes (r r' : Router) : Prop where
  sound : TableSound r → TableSound r'
  fixed : Unique r → fixed r' = fixed r

theorem Routes.trans {s : Router} (h : Routes r s) (h' : Routes s r') (hs : TableSound r) : Routes r r' :=
  ⟨fun hr => h'.sound (h.sound hr), fun hu => (h'.fixed (h.sound hs).unique).trans (h.fixed hu)⟩

theorem count_routes (r : Router) (i : Nat) (n : Int) : Routes r (r.count i n) :=
  ⟨fun h => ⟨count_placed i n h.toPlaced, count_unique i n h.unique⟩, count_fixed i n⟩

theorem failed_routes (cnf : Cnf) (now : Int) (r : Router) (i : Nat) :
    Routes r (routerDstFailed cnf now r i) :=
  ⟨fun h => ⟨failed_placed cnf now i h.toPlaced, core_unique (failed_core cnf now r i) h.unique⟩,
    core_fixed (failed_core cnf now r i)⟩

theorem picked_routes (h : Picked r r' ret) : Routes r r' :=
  ⟨fun hr => ⟨h.placed hr.toPlaced, core_unique h.same hr.unique⟩, core_fixed h.same⟩

theorem choose_routes (hs : TableSound r) (h : routerChooseDst cnf env r hint = (r', ret)) : Routes r r' := by
  rcases choose_picked h with ⟨_, hp⟩ | ⟨q, i, _, hp, rfl⟩
  · exact picked_routes hp
  · exact (picked_routes hp).trans (count_routes q i 1) hs

theorem disconnect_routes (cnf : Cnf) (now : Int) (a : SockAddr) (failed : Bool) (hs : TableSound r) :
    Routes r (glbRouterDisconnect cnf now r a failed) := by
  have hc := disconnect_cases cnf now r a failed
  generalize glbRouterDisconnect cnf now r a failed = q at hc ⊢
  cases hc with
  | unlisted _ => exact ⟨id, fun _ => rfl⟩
  | counted _ _ => exact count_routes r _ (-1)
  | failed _ _ => exact (count_routes r _ (-1)).trans (failed_routes cnf now _ _) hs

theorem again_routes (cnf : Cnf) (now : Int) (env : ChooseEnv) (hint : UInt32) (a : SockAddr)
    (hs : TableSound r) : Routes r (glbRouterChooseDstAgain cnf now env r hint a).1 := by
  have hd := disconnect_routes cnf now a true hs
  exact hd.trans (choose_routes (hd.sound hs) rfl) hs

end routing

/-- Every call but `glb_router_change_dst`. -/
def isRouting : RouterOp → Bool
  | .change _ _ _ => false
  | _ => true

theorem step_routes (hs : TableSound r) (ho : isRouting op = true) (h : routerStep cnf r op = some r') :
    Routes r r' := by
  cases op with
  | change env dst ctx => cases ho
  | choose env hint =>
    simp only [routerStep, Option.some.injEq] at h
    exact h ▸ choose_routes hs rfl
  | disconnect now a failed =>
    simp only [routerStep, Option.some.injEq] at h
    exact h ▸ disconnect_routes cnf now a failed hs
  | chooseAgain now env hint a =>
    simp only [routerStep, Option.some.injEq] at h
    exact h ▸ again_routes cnf now env hint a hs

theorem step_table_sound (hs : TableSound r) (h : routerStep cnf r op = some r') : TableSound r' := by
  cases op with
  | change env dst ctx =>
    simp only [routerStep, Option.some.injEq] at h
    exact h ▸ change_sound cnf env dst ctx hs
  | choose _ _ => exact (step_routes hs rfl h).sound hs
  | disconnect _ _ _ => exact (step_routes hs rfl h).sound hs
  | chooseAgain _ _ _ _ => exact (step_routes hs rfl h).sound hs

/-- The table of a router, read as a map, in front of its next call. -/
structure RefinesMap (cnf : Cnf) (r : Router) : Prop where
  unique : (r.dst.map dstAddr).Nodup
  change : ∀ env dst ctx, env.realloc = true →
    table (glbRouterChangeDst cnf env r dst ctx).1 = changeEntry (table r) dst ctx
  code : ∀ env dst ctx, env.realloc = true →
    ((glbRouterChangeDst cnf env r dst ctx).2 < 0 ↔ table r dst.addr = none ∧ dst.weight < 0)
  refused : ∀ env dst ctx, env.realloc = true → table r dst.addr = none → dst.weight < 0 →
    (glbRouterChangeDst cnf env r dst ctx).1 = r
  routing : ∀ op r', isRouting op = true → routerStep cnf r op = some r' → fixed r' = fixed r
  cursor : 0 < r.dst.length → r.rrbNext < r.dst.length
  top : ∀ i, r.topDst = some i → i < r.dst.length

/-- After any calls the table is a finite map, and the next call changes it as the
map is meant to change. -/
theorem table_refines_map (ops : List RouterOp)
    (h : exec (routerStep cnf) Router.init ops = some r) : RefinesMap cnf r := by
  have hs : TableSound r := exec_invariant (fun _ _ _ => step_table_sound) sound_init h
  refine ⟨hs.unique, ?_, ?_, ?_, ?_, ?_, hs.top⟩
  · intro env dst ctx hm
    exact change_table cnf hs.unique hm
  · intro env dst ctx hm
    exact (change_code cnf hm).1
  · intro env dst ctx hm
    exact (change_code cnf hm).2
  · intro op r' ho hr
    exact (step_routes hs ho hr).fixed hs.unique
  · intro hl
    rcases hs.cursor with hz | hlt
    · omega
    · exact hlt

/-- A is listed, chosen and removed again while B stays. -/
def removeListed : List RouterOp :=
  [setAt 100 serverA 1, setAt 100 serverB 1, .choose (chooseAt 100) 0, setAt 101 serverA (-1)]

theorem table_refines_map_remove_a :
    RefinesMap roundRobin (reached roundRobin removeListed) ∧
      table (reached roundRobin removeListed) serverA = none ∧
      table (reached roundRobin removeListed) serverB = some ⟨1, 0, 0, none⟩ := by
  refine ⟨table_refines_map removeListed ?_, ?_, ?_⟩
  all_goals decide +kernel

end Glb.Proofs.RouterTable
