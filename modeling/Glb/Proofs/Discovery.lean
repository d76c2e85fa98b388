import Glb.Proofs.Roster
import Glb.Standard

namespace Glb.Proofs.Discovery
open Lib.Keyed Roster

variable {w : Wdog} {l : List Post} {p q : Post} {a : SockAddr} {x : Dst} {ds pre behind : List Dst}
  {start : Nat → StartEnv}

section member

/-- What a member does to a destination that is listed. -/
def hear (p : Post) (x : Dst) : Post := if x.addr = p.addr then changePost x.weight false p else p

theorem hear_addr (p : Post) (x : Dst) : (hear p x).addr = p.addr := by
  unfold hear
  split
  · exact (change_post_fixed x.weight false p).1
  · rfl

theorem hear_explicit (he : p.explicit = true) (x : Dst) : hear p x = p := by
  simp [hear, changePost, he]

theorem hear_other (h : x.addr ≠ p.addr) : hear p x = p := if_neg h

theorem map_hear_addr (l : List Post) (x : Dst) : (l.map (hear · x)).map Post.addr = l.map Post.addr := by
  rw [List.map_map]
  exact List.map_congr_left fun p _ => hear_addr p x

/-- A member that is listed, or is to go, adds nothing. -/
theorem change_hear (hn : (l.map Post.addr).Nodup) (h : x.weight < 0 ∨ x.addr ∈ l.map Post.addr) :
    changeRoster up k l x false = l.map (hear · x) := by
  unfold changeRoster
  cases hf : l.findIdx? (fun p => p.addr = x.addr) with
  | none =>
    have hout : ∀ p ∈ l, x.addr ≠ p.addr := by
      intro p hp he
      simpa [he] using List.findIdx?_eq_none_iff.mp hf p hp
    have hw : x.weight < 0 := by
      refine h.resolve_right fun hm => ?_
      obtain ⟨p, hp, he⟩ := List.mem_map.mp hm
      exact hout p hp he.symm
    simp only [hw, ↓reduceIte]
    exact (List.map_id'' (fun p => rfl) l).symm.trans
      (List.map_congr_left fun p hp => (hear_other (hout p hp)).symm)
  | some i =>
    obtain ⟨hi, hp, _⟩ := List.findIdx?_eq_some_iff_getElem.mp hf
    have hpa : l[i].addr = x.addr := by simpa using hp
    apply List.ext_getElem?
    intro j
    rw [List.getElem?_modify, List.getElem?_map]
    cases hj : l[j]? with
    | none => rfl
    | some p =>
      by_cases hij : i = j
      · subst hij
        obtain rfl : l[i] = p := Option.some.inj ((List.getElem?_eq_getElem hi).symm.trans hj)
        simp [hear, hpa]
      · have hne : x.addr ≠ p.addr := by
          intro he
          exact hij (key_inj hn (List.getElem?_eq_getElem hi) hj (he.symm.trans hpa.symm))
        simp [hij, hear_other hne]

/-- Any other member is added. -/
theorem change_enters (hw : ¬ x.weight < 0) (hout : x.addr ∉ l.map Post.addr) :
    changeRoster true k l x false = l.map (hear · x) ++ [⟨x.addr, k, x.weight, false, false, false⟩] := by
  have hne : ∀ p ∈ l, x.addr ≠ p.addr := fun p hp he => hout (he ▸ List.mem_map_of_mem hp)
  have hf : l.findIdx? (fun p => p.addr = x.addr) = none := by
    refine List.findIdx?_eq_none_iff.mpr fun p hp => ?_
    simpa using fun he => hne p hp he.symm
  have hsame : l.map (hear · x) = l :=
    (List.map_congr_left fun p hp => hear_other (hne p hp)).trans (List.map_id'' (fun p => rfl) l)
  rw [hsame]
  simp [changeRoster, hf, hw]

end member

section members

def hearAll (ds : List Dst) (p : Post) : Post := ds.foldl hear p

theorem hear_all_explicit (he : p.explicit = true) (ds : List Dst) : hearAll ds p = p := by
  induction ds with
  | nil => rfl
  | cons x ds ih =>
    have hx : hearAll (x :: ds) p = hearAll ds (hear p x) := rfl
    rw [hx, hear_explicit he, ih]

/-- The last weight that the members give to an address, if they give it one. -/
def lastWeight (a : SockAddr) (ds : List Dst) (weight : ℚ) : ℚ :=
  ds.foldl (fun weight x => if x.addr = a ∧ ¬ x.weight < 0 then x.weight else weight) weight

/-- Whether the members tell an address to go. -/
def dismissed (a : SockAddr) (ds : List Dst) : Bool := ds.any fun x => x.addr = a ∧ x.weight < 0

theorem last_weight_cons (a : SockAddr) (x : Dst) (ds : List Dst) (weight : ℚ) : lastWeight a (x :: ds) weight =
    lastWeight a ds (if x.addr = a ∧ ¬ x.weight < 0 then x.weight else weight) := rfl

theorem dismissed_cons (a : SockAddr) (x : Dst) (ds : List Dst) :
    dismissed a (x :: ds) = (decide (x.addr = a ∧ x.weight < 0) || dismissed a ds) := rfl

theorem last_weight_cases (a : SockAddr) (ds : List Dst) :
    (∀ weight, lastWeight a ds weight = weight) ∨ ∃ r, ∀ weight, lastWeight a ds weight = r := by
  induction ds with
  | nil => exact Or.inl fun _ => rfl
  | cons x ds ih =>
    rcases ih with ih | ⟨r, ih⟩
    · by_cases hx : x.addr = a ∧ ¬ x.weight < 0
      · refine Or.inr ⟨x.weight, fun weight => ?_⟩
        exact (ih _).trans (if_pos hx)
      · refine Or.inl fun weight => ?_
        exact (ih _).trans (if_neg hx)
    · exact Or.inr ⟨r, fun weight => ih _⟩

theorem last_weight_again (a : SockAddr) (ds : List Dst) (weight : ℚ) :
    lastWeight a ds (lastWeight a ds weight) = lastWeight a ds weight := by
  rcases last_weight_cases a ds with h | ⟨r, h⟩
  · rw [h]
  · rw [h, h]

/-- What all the members together do to a destination that they may change. -/
theorem hear_all (he : p.explicit = false) (ds : List Dst) :
    hearAll ds p =
      { p with weight := lastWeight p.addr ds p.weight, quit := p.quit || dismissed p.addr ds } := by
  induction ds generalizing p with
  | nil => simp [hearAll, lastWeight, dismissed]
  | cons x ds ih =>
    have hx : hearAll (x :: ds) p = hearAll ds (hear p x) := rfl
    by_cases ha : x.addr = p.addr
    · by_cases hw : x.weight < 0
      · have hh : hear p x = { p with quit := true } := by simp [hear, changePost, ha, hw, he]
        rw [hx, hh, ih (p := { p with quit := true }) he, last_weight_cons, dismissed_cons]
        simp only [ha, hw, not_true, and_false, ↓reduceIte, and_true, decide_true, Bool.true_or, Bool.or_true]
      · have hh : hear p x = { p with weight := x.weight } := by simp [hear, changePost, ha, hw, he]
        rw [hx, hh, ih (p := { p with weight := x.weight }) he, last_weight_cons, dismissed_cons]
        simp only [ha, hw, not_false_eq_true, and_true, ↓reduceIte, and_false, decide_false, Bool.false_or]
    · rw [hx, hear_other ha, ih he, last_weight_cons, dismissed_cons]
      simp only [ha, false_and, ↓reduceIte, decide_false, Bool.false_or]

theorem hear_all_again (ds : List Dst) (p : Post) : hearAll ds (hearAll ds p) = hearAll ds p := by
  cases he : p.explicit with
  | true => rw [hear_all_explicit he, hear_all_explicit he]
  | false =>
    have hp := hear_all he ds
    have hq : (hearAll ds p).explicit = false := by rw [hp]; exact he
    rw [hear_all hq ds, hp]
    simp [last_weight_again]

/-- The member at `x` is the first that gives an unlisted address a place. -/
structure Enters (l : List SockAddr) (ds pre : List Dst) (x : Dst) (behind : List Dst) : Prop where
  split : ds = pre ++ x :: behind
  unlisted : x.addr ∉ l
  weight : ¬ x.weight < 0
  first : ∀ y ∈ pre, y.addr = x.addr → y.weight < 0

/-- A destination that has entered hears the members behind it, and the next time
those before it too. -/
theorem entered_again {l : List SockAddr} (h : Enters l ds pre x behind) (k : CtxId) :
    hearAll ds (hearAll behind ⟨x.addr, k, x.weight, false, false, false⟩) =
        hearAll behind ⟨x.addr, k, x.weight, false, false, false⟩ ↔
      (dismissed x.addr pre = true → dismissed x.addr behind = true) := by
  have hweight : ∀ weight, lastWeight x.addr ds weight = lastWeight x.addr behind x.weight := by
    intro weight
    have hx : x.addr = x.addr ∧ ¬ x.weight < 0 := ⟨rfl, h.weight⟩
    rw [h.split, lastWeight, List.foldl_append, ← lastWeight, ← lastWeight, last_weight_cons, if_pos hx]
  have hquit : dismissed x.addr ds = (dismissed x.addr pre || dismissed x.addr behind) := by
    rw [h.split]
    simp [dismissed, h.weight]
  rw [hear_all rfl behind, hear_all rfl ds]
  simp only [Post.mk.injEq, true_and, and_true, hweight, hquit, Bool.false_or]
  cases dismissed x.addr pre <;> cases dismissed x.addr behind <;> simp

end members

section loop

variable (hup : ∀ i, startsUp (start i) = true)
include hup

theorem change_up (hm : Manned w) (i : Nat) (x : Dst) :
    roster (wdogChangeDst (start i) w x false).1 = changeRoster true w.nextCtx (roster w) x false := by
  rw [(change_roster hm (start i) x false).1, hup i]

theorem membership_listed (hm : Manned w) (i : Nat) :
    a ∈ (roster (membershipLoop start ds i w)).map Post.addr ↔
      a ∈ (roster w).map Post.addr ∨ ∃ x ∈ ds, a = x.addr ∧ ¬ x.weight < 0 := by
  induction ds generalizing i w with
  | nil => simp [membershipLoop]
  | cons x ds ih =>
    refine (ih (change_roster hm (start i) x false).2 (i + 1)).trans ?_
    rw [change_up hup hm, change_listed]
    simp only [List.mem_cons, exists_eq_or_imp, and_true, or_assoc]

/-- A listed destination hears every member. -/
theorem membership_hear (ds : List Dst) (hm : Manned w) (i : Nat) (hp : p ∈ roster w) :
    hearAll ds p ∈ roster (membershipLoop start ds i w) := by
  induction ds generalizing i w p with
  | nil => exact hp
  | cons x ds ih =>
    refine ih (change_roster hm (start i) x false).2 (i + 1) ?_
    rw [change_up hup hm]
    by_cases hold : x.weight < 0 ∨ x.addr ∈ (roster w).map Post.addr
    · rw [change_hear hm.addrs hold]
      exact List.mem_map_of_mem hp
    · obtain ⟨hw, hout⟩ := not_or.mp hold
      rw [change_enters hw hout]
      exact List.mem_append_left _ (List.mem_map_of_mem hp)

/-- A member that is yet to enter is not let in by another. -/
theorem enters_tail (hm : Manned w) (i : Nat) (h : Enters ((roster w).map Post.addr) (y :: ds) (y :: pre) x behind) :
    Enters ((roster (wdogChangeDst (start i) w y false).1).map Post.addr) ds pre x behind := by
  refine ⟨(List.cons.inj h.split).2, ?_, h.weight, fun z hz => h.first z (List.mem_cons_of_mem _ hz)⟩
  rw [change_up hup hm, change_listed]
  rintro (hin | ⟨ha, hw, _⟩)
  · exact h.unlisted hin
  · exact hw (h.first y List.mem_cons_self ha.symm)

theorem enters_cons (hm : Manned w) (i : Nat)
    (h : Enters ((roster (wdogChangeDst (start i) w y false).1).map Post.addr) ds pre x behind) :
    Enters ((roster w).map Post.addr) (y :: ds) (y :: pre) x behind := by
  have hout := h.unlisted
  rw [change_up hup hm, change_listed] at hout
  obtain ⟨hout, hy⟩ := not_or.mp hout
  refine ⟨congrArg (y :: ·) h.split, hout, h.weight, fun z hz ha => ?_⟩
  rcases List.mem_cons.mp hz with rfl | hz
  · by_contra hw
    exact hy ⟨ha.symm, hw, rfl⟩
  · exact h.first z hz ha

/-- Whoever enters is on the list, and has heard the members behind it. -/
theorem membership_enters (hm : Manned w) (i : Nat) (h : Enters ((roster w).map Post.addr) ds pre x behind) :
    ∃ k, hearAll behind ⟨x.addr, k, x.weight, false, false, false⟩ ∈ roster (membershipLoop start ds i w) := by
  induction ds generalizing i w pre with
  | nil => simpa using h.split
  | cons y ds ih =>
    have hm' := (change_roster hm (start i) y false).2
    cases pre with
    | nil =>
      obtain ⟨rfl, rfl⟩ := List.cons.inj h.split
      refine ⟨w.nextCtx, membership_hear hup _ hm' (i + 1) ?_⟩
      rw [change_up hup hm, change_enters h.weight h.unlisted]
      exact List.mem_append_right _ List.mem_cons_self
    | cons z pre =>
      obtain rfl := (List.cons.inj h.split).1
      exact ih hm' (i + 1) (enters_tail hup hm i h)

/-- Everyone else on the list was there before. -/
theorem membership_mem (hm : Manned w) (i : Nat) (hq : q ∈ roster (membershipLoop start ds i w)) :
    (∃ p ∈ roster w, q = hearAll ds p) ∨
      ∃ pre x behind k, Enters ((roster w).map Post.addr) ds pre x behind ∧
        q = hearAll behind ⟨x.addr, k, x.weight, false, false, false⟩ := by
  induction ds generalizing i w with
  | nil => exact Or.inl ⟨q, hq, rfl⟩
  | cons y ds ih =>
    rcases ih (change_roster hm (start i) y false).2 (i + 1) hq with ⟨p, hp, rfl⟩ | ⟨pre, x, behind, k, hx, rfl⟩
    · rw [change_up hup hm] at hp
      by_cases hold : y.weight < 0 ∨ y.addr ∈ (roster w).map Post.addr
      · rw [change_hear hm.addrs hold] at hp
        obtain ⟨p, hp', rfl⟩ := List.mem_map.mp hp
        exact Or.inl ⟨p, hp', rfl⟩
      · obtain ⟨hw, hout⟩ := not_or.mp hold
        rw [change_enters hw hout] at hp
        rcases List.mem_append.mp hp with hp | hp
        · obtain ⟨p, hp', rfl⟩ := List.mem_map.mp hp
          exact Or.inl ⟨p, hp', rfl⟩
        · obtain rfl := List.mem_singleton.mp hp
          exact Or.inr ⟨[], y, ds, w.nextCtx, ⟨rfl, hout, hw, by simp⟩, rfl⟩
    · exact Or.inr ⟨y :: pre, x, behind, k, enters_cons hup hm i hx, rfl⟩

/-- When nobody enters, the list is heard through in place. -/
theorem membership_again (hm : Manned w) (i : Nat)
    (hold : ∀ x ∈ ds, x.weight < 0 ∨ x.addr ∈ (roster w).map Post.addr) :
    roster (membershipLoop start ds i w) = (roster w).map (hearAll ds) := by
  induction ds generalizing i w with
  | nil => exact (List.map_id'' (fun p => rfl) (roster w)).symm
  | cons x ds ih =>
    have hx : roster (wdogChangeDst (start i) w x false).1 = (roster w).map (hear · x) :=
      (change_up hup hm i x).trans (change_hear hm.addrs (hold x List.mem_cons_self))
    refine (ih (change_roster hm (start i) x false).2 (i + 1) fun y hy => ?_).trans ?_
    · rw [hx, map_hear_addr]
      exact hold y (List.mem_cons_of_mem _ hy)
    · rw [hx, List.map_map]
      rfl

end loop

/-- What an operator sees of a destination. -/
def settings (p : Post) : SockAddr × ℚ × Bool × Bool := (p.addr, p.weight, p.explicit, p.quit)

theorem hear_all_settings (h : settings (hearAll ds p) = settings p) : hearAll ds p = p := by
  cases he : p.explicit with
  | true => exact hear_all_explicit he ds
  | false =>
    rw [hear_all he] at h ⊢
    cases p
    simp_all [settings]

/-- Every address that the members let in after they have told it to go, they tell
to go once more. -/
def Settles (l : List SockAddr) (ds : List Dst) : Prop :=
  ∀ pre x behind, Enters l ds pre x behind → dismissed x.addr pre = true → dismissed x.addr behind = true

theorem membership_settles (hup : ∀ i, startsUp (start i) = true) {start' : Nat → StartEnv}
    (hup' : ∀ i, startsUp (start' i) = true) (hm : Manned w) :
    (roster (membershipLoop start' ds 0 (membershipLoop start ds 0 w))).map settings =
        (roster (membershipLoop start ds 0 w)).map settings ↔
      Settles ((roster w).map Post.addr) ds := by
  have hm' := membership_manned start ds 0 hm
  have hold : ∀ x ∈ ds, x.weight < 0 ∨ x.addr ∈ (roster (membershipLoop start ds 0 w)).map Post.addr := by
    intro x hx
    by_cases hw : x.weight < 0
    · exact Or.inl hw
    · exact Or.inr ((membership_listed hup hm 0).mpr (Or.inr ⟨x, hx, rfl, hw⟩))
  rw [membership_again hup' hm' 0 hold, List.map_map, List.map_inj_left]
  constructor
  · intro hfix pre x behind hx
    obtain ⟨k, hk⟩ := membership_enters hup hm 0 hx
    exact (entered_again hx k).mp (hear_all_settings (hfix _ hk))
  · intro hs q hq
    refine congrArg settings ?_
    rcases membership_mem hup hm 0 hq with ⟨p, _, rfl⟩ | ⟨pre, x, behind, k, hx, rfl⟩
    · exact hear_all_again ds p
    · exact (entered_again hx k).mpr (hs pre x behind hx)

section string
variable {env env' : CollectEnv}

/-- Destinations of the operator stay as they are, every member has its place, and the
string says nothing new a second time exactly if it settles. -/
theorem discovery_settles (libc : Libc) (port : UInt16) (memb : String) (hm : Manned w)
    (hmem : env.memory = true) (hup : ∀ i, startsUp (env.start i) = true)
    (hmem' : env'.memory = true) (hup' : ∀ i, startsUp (env'.start i) = true) :
    let members := wdogMembers libc port
    let w' := wdogProcessMembershipChange members env w memb
    (∀ p ∈ roster w, p.explicit = true → p ∈ roster w') ∧
      (∀ s ∈ membList memb, ∀ dst n, glbDstParse libc s port = .ok (dst, n) → ¬ dst.weight < 0 →
        ((roster w').map Post.addr).count dst.addr = 1) ∧
      ((roster (wdogProcessMembershipChange members env' w' memb)).map settings = (roster w').map settings ↔
        Settles ((roster w).map Post.addr) (members memb)) := by
  simp only [wdogProcessMembershipChange, hmem, hmem', ↓reduceIte]
  refine ⟨?_, ?_, membership_settles hup hup' hm⟩
  · intro p hp he
    have hh := membership_hear hup (wdogMembers libc port memb) hm 0 hp
    rwa [hear_all_explicit he] at hh
  · intro s hs dst n hparse hw
    have hdst : dst ∈ wdogMembers libc port memb := List.mem_filterMap.mpr ⟨s, hs, by rw [hparse]⟩
    have hin := (membership_listed hup hm 0).mpr (Or.inr ⟨dst, hdst, rfl, hw⟩)
    exact List.count_eq_one_of_mem (membership_manned _ _ 0 hm).addrs hin

end string

/-- Everything that a membership change asks for is there. -/
def plenty : CollectEnv where
  realloc _ := true
  exits _ := false
  change _ := ⟨0, 0, true⟩
  memory := true
  start _ := ⟨true, true, 0⟩

def afterMembers (w : Wdog) (memb : String) : Wdog := wdogProcessMembershipChange (wdogMembers letterHosts 3306) plenty w memb

/-- The operator has asked for B. -/
def operatorB : Wdog := (wdogChangeDst (plenty.start 0) (Wdog.init true) ⟨⟨2, htons 3306, ⟨10, 0, 0, 98⟩, 0⟩, 1⟩ true).1

theorem discovery_settles_operator_b :
    (∀ p ∈ roster operatorB, p.explicit = true → p ∈ roster (afterMembers operatorB "b:3306:-1 a,b::2")) ∧
      (roster (afterMembers (afterMembers operatorB "b:3306:-1 a,b::2") "b:3306:-1 a,b::2")).map settings =
        (roster (afterMembers operatorB "b:3306:-1 a,b::2")).map settings := by
  have hm : Manned operatorB := (change_roster (manned_init true) _ _ _).2
  obtain ⟨hstay, _, hagain⟩ := discovery_settles letterHosts 3306 "b:3306:-1 a,b::2" hm
    (show plenty.memory = true from rfl) (fun _ => rfl) (show plenty.memory = true from rfl) (fun _ => rfl)
  refine ⟨hstay, hagain.mpr ?_⟩
  -- only B is ever told to go, and it is listed
  intro pre x behind hx hd
  obtain ⟨y, hy, hgo⟩ := List.any_eq_true.mp hd
  have hall : ∀ y ∈ wdogMembers letterHosts 3306 "b:3306:-1 a,b::2", y.weight < 0 →
      y.addr ∈ (roster operatorB).map Post.addr := by decide +kernel
  obtain ⟨ha, hw⟩ := of_decide_eq_true hgo
  exact absurd (ha ▸ hall y (hx.split ▸ List.mem_append_left _ hy) hw) hx.unlisted

/-- The string tells A to go before it lets it in: the first time this is not heard,
the second time it is. -/
theorem discovery_unsettled_again :
    (roster (afterMembers (afterMembers (Wdog.init true) "a:1:-1,a:1:1") "a:1:-1,a:1:1")).map settings ≠
      (roster (afterMembers (Wdog.init true) "a:1:-1,a:1:1")).map settings := by
  decide +kernel

end Glb.Proofs.Discovery
