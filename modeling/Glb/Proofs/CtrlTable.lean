import Glb.Control
import Glb.Lib.Run

namespace Glb.Proofs.CtrlTable
open Function Lib.Run

/-- The listening socket's slot. -/
def inetSlot (fifo : Fd) : Nat := if 0 < fifo then 1 else 0

/-- The table apart from what is asked of the listening socket. -/
structure Filled (fifo sock : Fd) (c : CtrlThread) : Prop where
  low : 1 ≤ c.fdMax
  high : c.fdMax ≤ ctrlMax
  distinct : ∀ i j : Nat, i < c.fdMax → j < c.fdMax → (c.fds i).fd = (c.fds j).fd → i = j
  pipe : 0 < fifo → (c.fds 0).fd = fifo
  inet : 0 < sock → c.inetFd = inetSlot fifo ∧ inetSlot fifo < c.fdMax ∧ (c.fds (inetSlot fifo)).fd = sock
  listening : c.inetSock = sock
  alone : sock ≤ 0 → c.fdMax = 1
  idle : ∀ i : Nat, c.fdMax ≤ i → (c.fds i).revents = false

/-- The listening socket is polled exactly while there is room. -/
structure Polling (fifo sock : Fd) (c : CtrlThread) : Prop extends Filled fifo sock c where
  polled : 0 < sock → ((c.fds (inetSlot fifo)).events = true ↔ c.fdMax < ctrlMax)

/-- How a step ends that stays inside the array. -/
inductive Fine (fifo sock : Fd) : Except CtrlFault CtrlThread → Prop where
  | went {c : CtrlThread} (h : Polling fifo sock c) : Fine fifo sock (.ok c)
  | abort : Fine fifo sock (.error .abort)
  | kernel : Fine fifo sock (.error .kernel)

variable {fifo sock fd : Fd} {c c0 : CtrlThread} {req : Nat → ReqOut} {i k n : Nat}

theorem inet_slot_le (fifo : Fd) : inetSlot fifo ≤ 1 := by
  unfold inetSlot
  split <;> omega

theorem fd_at_ok (c : CtrlThread) (h : i < ctrlMax) : c.fdAt i = .ok (c.fds i) := by
  rw [CtrlThread.fdAt, if_pos (by omega), Int.toNat_natCast]

theorem set_fd_ok (c : CtrlThread) (x : CtrlFd) (h : i < ctrlMax) :
    c.setFd i x = .ok { c with fds := update c.fds i x } := by
  rw [CtrlThread.setFd, if_pos (by omega), Int.toNat_natCast]

theorem Filled.listens (h : Filled fifo sock c) (hmore : 1 < c.fdMax) : 0 < sock := by
  by_contra hle
  have := h.alone (not_lt.mp hle)
  omega

theorem Filled.listens_full (h : Filled fifo sock c) (hfull : c.fdMax = ctrlMax) : 0 < sock := by
  have : ctrlMax = 32 := rfl
  exact h.listens (by omega)

section events

def asking (c : CtrlThread) (i : Nat) (asked : Bool) : CtrlThread :=
  { c with fds := update c.fds i { c.fds i with events := asked } }

theorem asking_fd (c : CtrlThread) (i : Nat) (asked : Bool) (j : Nat) :
    ((asking c i asked).fds j).fd = (c.fds j).fd := by
  by_cases h : j = i
  · subst h
    simp [asking]
  · simp [asking, h]

theorem asking_revents (c : CtrlThread) (i : Nat) (asked : Bool) (j : Nat) :
    ((asking c i asked).fds j).revents = (c.fds j).revents := by
  by_cases h : j = i
  · subst h
    simp [asking]
  · simp [asking, h]

theorem set_events_table (h : Filled fifo sock c) (hs : 0 < sock) (asked : Bool)
    (hasked : asked = true ↔ c.fdMax < ctrlMax) :
    ∃ c', c.setEvents c.inetFd asked = .ok c' ∧ Polling fifo sock c' ∧ c'.fdMax = c.fdMax := by
  obtain ⟨hfd, hlt, hsock⟩ := h.inet hs
  have hin : inetSlot fifo < ctrlMax := by
    have := h.high
    omega
  refine ⟨asking c (inetSlot fifo) asked, ?_, ⟨⟨h.low, h.high, ?_, ?_, ?_, h.listening, h.alone, ?_⟩, ?_⟩, rfl⟩
  · rw [CtrlThread.setEvents, hfd, fd_at_ok c hin]
    exact set_fd_ok c _ hin
  · intro i j hi hj he
    rw [asking_fd, asking_fd] at he
    exact h.distinct i j hi hj he
  · intro hf
    rw [asking_fd]
    exact h.pipe hf
  · intro _
    exact ⟨hfd, hlt, (asking_fd c _ asked _).trans hsock⟩
  · intro i hi
    rw [asking_revents]
    exact h.idle i hi
  · intro _
    simpa [asking] using hasked

end events

section add

def added (c : CtrlThread) (fd : Fd) : CtrlThread :=
  { c with fds := update c.fds c.fdMax.toNat ⟨fd, true, false⟩, fdMax := c.fdMax + 1 }

theorem added_old (c : CtrlThread) (fd : Fd) (h : i < c.fdMax) : (added c fd).fds i = c.fds i :=
  update_of_ne (by omega) _ _

theorem added_filled (h : Filled fifo sock c) (hs : 0 < sock) (hroom : c.fdMax < ctrlMax)
    (hf : c.fresh fd = true) : Filled fifo sock (added c fd) := by
  have hlow := h.low
  have hnew : (added c fd).fds c.fdMax.toNat = ⟨fd, true, false⟩ := update_self _ _ _
  have hne : ∀ i : Nat, i < c.fdMax → (c.fds i).fd ≠ fd := by
    intro i hi
    have hall := List.all_eq_true.mp hf i (List.mem_range.mpr (by omega))
    simp only [decide_eq_true_eq] at hall
    exact hall hi
  have old : ∀ i : Nat, i < (added c fd).fdMax → i ≠ c.fdMax.toNat → i < c.fdMax := by
    intro i hi hn
    have : i < c.fdMax + 1 := hi
    omega
  refine ⟨?_, ?_, ?_, ?_, ?_, h.listening, fun hle => absurd hs (not_lt.mpr hle), ?_⟩
  · change 1 ≤ c.fdMax + 1
    omega
  · change c.fdMax + 1 ≤ ctrlMax
    omega
  · intro i j hi hj he
    by_cases hin : i = c.fdMax.toNat <;> by_cases hjn : j = c.fdMax.toNat
    · exact hin.trans hjn.symm
    · have hj := old j hj hjn
      rw [hin, hnew, added_old c fd hj] at he
      exact absurd he.symm (hne j hj)
    · have hi := old i hi hin
      rw [hjn, hnew, added_old c fd hi] at he
      exact absurd he (hne i hi)
    · have hi := old i hi hin
      have hj := old j hj hjn
      rw [added_old c fd hi, added_old c fd hj] at he
      exact h.distinct i j hi hj he
  · intro hfifo
    rw [added_old c fd (by omega)]
    exact h.pipe hfifo
  · intro _
    obtain ⟨hfd, hlt, hsock⟩ := h.inet hs
    refine ⟨hfd, ?_, ?_⟩
    · change (inetSlot fifo : Int) < c.fdMax + 1
      omega
    · rw [added_old c fd hlt]
      exact hsock
  · intro i hi
    have hi : c.fdMax + 1 ≤ i := hi
    have : (added c fd).fds i = c.fds i := update_of_ne (by omega) _ _
    rw [this]
    exact h.idle i (by omega)

theorem add_polling (h : Polling fifo sock c) (hs : 0 < sock) (hroom : c.fdMax < ctrlMax)
    (hf : c.fresh fd = true) : ∃ c', ctrlAddClient c fd = .ok c' ∧ Polling fifo sock c' := by
  have hlow := h.low
  have hfilled := added_filled h.toFilled hs hroom hf
  have hset : c.setFd c.fdMax ⟨fd, true, false⟩ =
      .ok { c with fds := update c.fds c.fdMax.toNat ⟨fd, true, false⟩ } := by
    rw [CtrlThread.setFd, if_pos (by omega)]
  have hadd : ctrlAddClient c fd = if (added c fd).fdMax = (ctrlMax : Int)
      then (added c fd).setEvents (added c fd).inetFd false else .ok (added c fd) := by
    rw [ctrlAddClient, if_pos hroom, hset]
    rfl
  by_cases hfull : (added c fd).fdMax = (ctrlMax : Int)
  · rw [if_pos hfull] at hadd
    obtain ⟨c', hc', ht, _⟩ := set_events_table hfilled hs false (by simp [hfull])
    exact ⟨c', hadd.trans hc', ht⟩
  · rw [if_neg hfull] at hadd
    refine ⟨_, hadd, ⟨hfilled, ?_⟩⟩
    intro _
    rw [added_old c fd (h.inet hs).2.1, h.polled hs]
    have := hfilled.high
    change c.fdMax < ctrlMax ↔ (added c fd).fdMax < ctrlMax
    omega

end add

section del

def withoutSlot (c : CtrlThread) (i : Nat) : CtrlThread :=
  { c with
    fdMax := c.fdMax - 1
    fds := update (update c.fds i (c.fds (c.fdMax - 1).toNat)) (c.fdMax - 1).toNat ⟨0, false, false⟩ }

theorem removed_last (c : CtrlThread) (i : Nat) (hk : k < c.fdMax - 1) :
    (withoutSlot c i).fds k = c.fds (if k = i then (c.fdMax - 1).toNat else k) := by
  have : (withoutSlot c i).fds k = update c.fds i (c.fds (c.fdMax - 1).toNat) k := update_of_ne (by omega) _ _
  rw [this, update_apply]
  split <;> rfl

theorem del_loop (h : Filled fifo sock c) (hi : i < c.fdMax) :
    ∀ n k : Nat, k + n = c.fdMax →
      ctrlDelLoop (c.fds i).fd n k c = .ok (if k ≤ i then withoutSlot c i else c) := by
  intro n
  have hhigh := h.high
  induction n with
  | zero =>
    intro k hk
    rw [if_neg (by omega)]
    rfl
  | succ n ih =>
    intro k hk
    rw [ctrlDelLoop, fd_at_ok c (by omega)]
    by_cases hki : k = i
    · subst hki
      have hlast : c.fdMax - 1 = ((c.fdMax - 1).toNat : Nat) := by omega
      rw [if_pos (Nat.le_refl k)]
      change (if (c.fds k).fd = (c.fds k).fd then _ else _) = _
      rw [if_pos rfl]
      unfold withoutSlot
      dsimp only
      rw [hlast, fd_at_ok _ (by omega)]
      change (CtrlThread.setFd _ _ _ >>= _) = _
      rw [set_fd_ok _ _ (by omega)]
      exact set_fd_ok _ _ (by omega)
    · have hne : (c.fds i).fd ≠ (c.fds k).fd := fun he => hki (h.distinct i k hi (by omega) he).symm
      change (if (c.fds i).fd = (c.fds k).fd then _ else _) = _
      rw [if_neg hne]
      have hstep := ih (k + 1) (by omega)
      rw [Int.natCast_succ] at hstep
      rw [hstep]
      congr 1
      by_cases hle : k ≤ i
      · rw [if_pos hle, if_pos (by omega)]
      · rw [if_neg hle, if_neg (by omega)]

theorem removed_filled (h : Filled fifo sock c) (hs : 0 < sock) (hi : i < c.fdMax) (hpos : 1 ≤ i)
    (hin : i ≠ inetSlot fifo) : Filled fifo sock (withoutSlot c i) := by
  have hhigh := h.high
  obtain ⟨hfd, hlt, hsock⟩ := h.inet hs
  have hslot := inet_slot_le fifo
  have hzero : 0 < fifo → inetSlot fifo = 1 := fun hf => if_pos hf
  have hwhole : inetSlot fifo < c.fdMax - 1 := by omega
  refine ⟨?_, ?_, ?_, ?_, ?_, h.listening, fun hle => absurd hs (not_lt.mpr hle), ?_⟩
  · change 1 ≤ c.fdMax - 1
    omega
  · change c.fdMax - 1 ≤ ctrlMax
    omega
  · intro a b ha hb he
    have ha : a < c.fdMax - 1 := ha
    have hb : b < c.fdMax - 1 := hb
    rw [removed_last c i ha, removed_last c i hb] at he
    have hab := h.distinct _ _ (by split <;> omega) (by split <;> omega) he
    split at hab <;> split at hab <;> omega
  · intro hf
    rw [removed_last c i (by omega), if_neg (by omega)]
    exact h.pipe hf
  · intro _
    refine ⟨hfd, hwhole, ?_⟩
    rw [removed_last c i hwhole, if_neg (Ne.symm hin)]
    exact hsock
  · intro k hk
    have hk : c.fdMax - 1 ≤ k := hk
    by_cases hkl : k = (c.fdMax - 1).toNat
    · subst hkl
      simp [withoutSlot]
    · have hold : (withoutSlot c i).fds k = c.fds k :=
        (update_of_ne hkl _ _).trans (update_of_ne (by omega) _ _)
      rw [hold]
      exact h.idle k (by omega)

/-- A client is taken out; the FIFO, that is never found, stays, and with no room left
that is fatal. -/
theorem del_fine (h : Polling fifo sock c) (hi : i < c.fdMax) (hin : (i : Int) ≠ c.inetFd) :
    ctrlDelClient c (c.fds i).fd = .error .abort ∨
      ∃ c', ctrlDelClient c (c.fds i).fd = .ok c' ∧ Polling fifo sock c' ∧ c'.fdMax < ctrlMax := by
  have hhigh := h.high
  by_cases hmore : 1 < c.fdMax
  · have hs := h.listens hmore
    have hin : i ≠ inetSlot fifo := by
      intro he
      rw [(h.inet hs).1] at hin
      omega
    have hloop := del_loop h.toFilled hi (c.fdMax - 1).toNat 1 (by omega)
    have hdel : ctrlDelClient c (c.fds i).fd =
        if (if 1 ≤ i then withoutSlot c i else c).fdMax < ctrlMax
        then (if 1 ≤ i then withoutSlot c i else c).setEvents (if 1 ≤ i then withoutSlot c i else c).inetFd true
        else .error .abort := by
      rw [ctrlDelClient, if_pos ⟨hhigh, hmore⟩]
      change (ctrlDelLoop _ _ ((1 : Nat) : Int) c >>= _) = _
      rw [hloop]
      rfl
    rw [hdel]
    have hfilled : Filled fifo sock (if 1 ≤ i then withoutSlot c i else c) := by
      split
      · exact removed_filled h.toFilled hs hi ‹_› hin
      · exact h.toFilled
    by_cases hroom : (if 1 ≤ i then withoutSlot c i else c).fdMax < ctrlMax
    · rw [if_pos hroom]
      obtain ⟨c', hc', ht, hm⟩ := set_events_table hfilled hs true (by simp [hroom])
      exact .inr ⟨c', hc', ht, by omega⟩
    · exact .inl (if_neg hroom)
  · left
    rw [ctrlDelClient, if_neg (by omega)]

end del

section scan

/-- With a slot to spare the inclusive bound does no harm. -/
theorem scan_fine (h : Polling fifo sock c) (hroom : c.fdMax < ctrlMax) :
    ∀ n k : Nat, Fine fifo sock (ctrlScan req n k c) := by
  intro n
  induction n generalizing c with
  | zero =>
    intro k
    exact .went h
  | succ n ih =>
    intro k
    have hnext := fun {c' : CtrlThread} (h' : Polling fifo sock c') (hr : c'.fdMax < ctrlMax) =>
      ih h' hr (k + 1)
    simp only [Int.natCast_succ] at hnext
    rw [ctrlScan]
    by_cases hk : k ≤ c.fdMax
    · rw [if_pos hk, fd_at_ok c (by omega)]
      change Fine fifo sock (if (c.fds k).revents then _ else _)
      by_cases hr : (c.fds k).revents = true
      · have hlt : k < c.fdMax := by
          by_contra hge
          have := h.idle k (by omega)
          rw [hr] at this
          cases this
        rw [if_pos hr]
        split
        · exact .abort
        · rename_i hin
          cases hreq : req k with
          | served =>
            simp only [Int.toNat_natCast, hreq]
            exact hnext h hroom
          | closed ret =>
            simp only [Int.toNat_natCast, hreq]
            rcases del_fine h hlt hin with hd | ⟨c', hd, ht, hr'⟩
            · rw [hd]
              exact .abort
            · rw [hd]
              change Fine fifo sock (if ret ≠ 0 then .ok c' else _)
              split
              · exact .went ht
              · exact hnext ht hr'
      · rw [if_neg hr]
        exact hnext h hroom
    · rw [if_neg hk]
      exact .went h

/-- A full table is scanned to the entry behind its last one, unless a client goes on
the way. -/
theorem scan_full (h : Polling fifo sock c) (hfull : c.fdMax = ctrlMax)
    (hquiet : (c.fds (inetSlot fifo)).revents = false) :
    ∀ n k : Nat, n + k = ctrlMax + 1 → k ≤ ctrlMax →
      (∀ i : Nat, k ≤ i → i < ctrlMax → (c.fds i).revents = true → req i = .served) ∧
          ctrlScan req n k c = .error (.index ctrlMax) ∨
        (∃ i : Nat, k ≤ i ∧ i < ctrlMax ∧ (c.fds i).revents = true ∧ req i ≠ .served) ∧
          Fine fifo sock (ctrlScan req n k c) := by
  have hs := h.listens_full hfull
  intro n
  induction n with
  | zero =>
    intro k hn hk
    omega
  | succ n ih =>
    intro k hn hk
    rw [ctrlScan, if_pos (by omega)]
    by_cases hend : k = ctrlMax
    · subst hend
      refine .inl ⟨fun i hi hlt => absurd hi (by omega), ?_⟩
      rw [CtrlThread.fdAt, if_neg (by omega)]
      rfl
    · -- a slot that is not ready or is served leaves the table and the question to the next one
      have hskip : ((c.fds k).revents = true → req k = .served) → ∀ r, r = ctrlScan req n ((k : Int) + 1) c →
          (∀ i : Nat, k ≤ i → i < ctrlMax → (c.fds i).revents = true → req i = .served) ∧
              r = .error (.index ctrlMax) ∨
            (∃ i : Nat, k ≤ i ∧ i < ctrlMax ∧ (c.fds i).revents = true ∧ req i ≠ .served) ∧
              Fine fifo sock r := by
        rintro hserved r rfl
        have := ih (k + 1) (by omega) (by omega)
        rw [Int.natCast_succ] at this
        rcases this with ⟨hall, he⟩ | ⟨⟨i, hi, hrest⟩, hfine⟩
        · refine .inl ⟨?_, he⟩
          intro i hi hlt hr
          by_cases hik : i = k
          · subst hik
            exact hserved hr
          · exact hall i (by omega) hlt hr
        · exact .inr ⟨⟨i, by omega, hrest⟩, hfine⟩
      rw [fd_at_ok c (by omega)]
      by_cases hr : (c.fds k).revents = true
      · have hin : (k : Int) ≠ c.inetFd := by
          intro he
          rw [(h.inet hs).1] at he
          obtain rfl : k = inetSlot fifo := by omega
          rw [hr] at hquiet
          cases hquiet
        cases hreq : req k with
        | served =>
          refine hskip (fun _ => hreq) _ ?_
          simp only [bind, Except.bind, hr, if_true, if_neg hin, Int.toNat_natCast, hreq]
        | closed ret =>
          refine .inr ⟨⟨k, Nat.le_refl k, by omega, hr, by simp [hreq]⟩, ?_⟩
          simp only [bind, Except.bind, hr, if_true, if_neg hin, Int.toNat_natCast, hreq]
          rcases del_fine h (by omega) hin with hd | ⟨c', hd, ht, hroom⟩
          · rw [hd]
            exact .abort
          · rw [hd]
            change Fine fifo sock (if ret ≠ 0 then .ok c' else _)
            split
            · exact .went ht
            · exact scan_fine ht hroom n (k + 1)
      · refine hskip (fun ht => absurd ht hr) _ ?_
        change (if (c.fds k).revents then _ else _) = _
        rw [if_neg hr]

end scan

section turn

variable {t : CtrlTurn} {listens : Bool}

/-- A full table is scanned and nobody leaves it. -/
def Overrun (c : CtrlThread) (t : CtrlTurn) : Prop :=
  c.fdMax = ctrlMax ∧ 0 < t.ret ∧
    ∀ i < ctrlMax, t.revents i = true → (c.fds i).events = true → t.req i = .served

/-- Every index used on the table is in the array. -/
def IndexOk (c : CtrlThread) (t : CtrlTurn) : Prop := ∀ i, ctrlTurn c t ≠ .error (.index i)

instance (c : CtrlThread) (t : CtrlTurn) : Decidable (Overrun c t) := inferInstanceAs (Decidable (_ ∧ _))

instance (c : CtrlThread) (t : CtrlTurn) : Decidable (IndexOk c t) :=
  match h : ctrlTurn c t with
  | .error (.index i) => .isFalse fun hok => hok i h
  | .error .abort => .isTrue fun i he => by simp [h] at he
  | .error .kernel => .isTrue fun i he => by simp [h] at he
  | .ok _ => .isTrue fun i he => by simp [h] at he

theorem Fine.no_index {r : Except CtrlFault CtrlThread} (h : Fine fifo sock r) (i : Int) :
    r ≠ .error (.index i) := by
  cases h <;> simp

theorem polled_slot (c : CtrlThread) (r : Nat → Bool) (i : Nat) :
    ((c.polled r).fds i).fd = (c.fds i).fd ∧ ((c.polled r).fds i).events = (c.fds i).events ∧
      ((c.polled r).fds i).revents = if i < c.fdMax then r i && (c.fds i).events else (c.fds i).revents := by
  change (if (i : Int) < c.fdMax then _ else _ : CtrlFd).fd = _ ∧ (if (i : Int) < c.fdMax then _ else _ : CtrlFd).events = _ ∧
    (if (i : Int) < c.fdMax then _ else _ : CtrlFd).revents = _
  split <;> exact ⟨rfl, rfl, rfl⟩

theorem Polling.poll (h : Polling fifo sock c) (r : Nat → Bool) : Polling fifo sock (c.polled r) := by
  refine ⟨⟨h.low, h.high, ?_, ?_, ?_, h.listening, h.alone, ?_⟩, ?_⟩
  · intro i j hi hj he
    rw [(polled_slot c r i).1, (polled_slot c r j).1] at he
    exact h.distinct i j hi hj he
  · intro hf
    rw [(polled_slot c r 0).1]
    exact h.pipe hf
  · intro hs
    rw [(polled_slot c r _).1]
    exact h.inet hs
  · intro i hi
    have hi : c.fdMax ≤ i := hi
    rw [(polled_slot c r i).2.2, if_neg (by omega)]
    exact h.idle i hi
  · intro hs
    rw [(polled_slot c r _).2.1]
    exact h.polled hs

theorem polled_scan (h : Polling fifo sock c) (hret : 0 < t.ret)
    (hquiet : 0 < sock → ((c.polled t.revents).fds (inetSlot fifo)).revents = false) :
    Overrun c t ∧ ctrlScan t.req (ctrlMax + 1) 0 (c.polled t.revents) = .error (.index ctrlMax) ∨
      ¬ Overrun c t ∧ Fine fifo sock (ctrlScan t.req (ctrlMax + 1) 0 (c.polled t.revents)) := by
  have hp := h.poll t.revents
  have hhigh := h.high
  by_cases hfull : c.fdMax = ctrlMax
  · have hs := h.listens_full hfull
    rcases scan_full hp hfull (hquiet hs) (ctrlMax + 1) 0 rfl (Nat.zero_le _) with
      ⟨hall, he⟩ | ⟨⟨i, _, hi, hr, hreq⟩, hfine⟩
    · refine .inl ⟨⟨hfull, hret, ?_⟩, he⟩
      intro i hi hr he
      refine hall i (Nat.zero_le i) hi ?_
      rw [(polled_slot c _ i).2.2, if_pos (by omega), hr, he]
      rfl
    · refine .inr ⟨?_, hfine⟩
      rintro ⟨_, _, hall⟩
      rw [(polled_slot c _ i).2.2, if_pos (by omega), Bool.and_eq_true] at hr
      exact hreq (hall i hi hr.1 hr.2)
  · exact .inr ⟨fun ho => hfull ho.1, scan_fine hp (by change c.fdMax < _; omega) (ctrlMax + 1) 0⟩

/-- What one turn of the thread does to the table. -/
theorem turn_fate (h : Polling fifo sock c) (t : CtrlTurn) :
    Overrun c t ∧ ctrlTurn c t = .error (.index ctrlMax) ∨
      ¬ Overrun c t ∧ Fine fifo sock (ctrlTurn c t) := by
  unfold ctrlTurn
  by_cases hret : t.ret ≤ 0
  · rw [if_pos hret]
    exact .inr ⟨fun ho => absurd ho.2.1 (by omega), .went h⟩
  · rw [if_neg hret]
    have hp := h.poll t.revents
    have hsock : (c.polled t.revents).inetSock = sock := h.listening
    by_cases hs : 0 < sock
    · obtain ⟨hfd, hlt, _⟩ := hp.inet hs
      have hin : inetSlot fifo < ctrlMax := by
        have := hp.high
        omega
      dsimp only
      rw [if_pos (hsock ▸ hs), hfd, fd_at_ok _ hin]
      change _ ∧ (if ((c.polled t.revents).fds (inetSlot fifo)).revents then _ else _) = _ ∨
        _ ∧ Fine fifo sock (if ((c.polled t.revents).fds (inetSlot fifo)).revents then _ else _)
      by_cases hr : ((c.polled t.revents).fds (inetSlot fifo)).revents = true
      · have hroom : c.fdMax < ctrlMax := by
          have hlt : inetSlot fifo < c.fdMax := hlt
          rw [(polled_slot c _ _).2.2, if_pos hlt, Bool.and_eq_true] at hr
          exact (h.polled hs).mp hr.2
        refine .inr ⟨fun ho => absurd ho.1 (by omega), ?_⟩
        rw [if_pos hr, ctrlAccept]
        split
        · exact .went hp
        · split
          · rename_i hfresh
            obtain ⟨c', hc', ht⟩ := add_polling hp hs hroom hfresh
            rw [hc']
            exact .went ht
          · exact .kernel
      · rw [if_neg hr]
        exact polled_scan h (by omega) (fun _ => by simpa using hr)
    · dsimp only
      rw [if_neg (hsock ▸ hs)]
      exact polled_scan h (by omega) (fun hpos => absurd hpos hs)

def ctrlStep (c : CtrlThread) (t : CtrlTurn) : Option CtrlThread := (ctrlTurn c t).toOption

theorem step_table (c : CtrlThread) (t : CtrlTurn) (c' : CtrlThread) (h : Polling fifo sock c)
    (hstep : ctrlStep c t = some c') : Polling fifo sock c' := by
  unfold ctrlStep at hstep
  rcases turn_fate h t with ⟨_, he⟩ | ⟨_, hfine⟩
  · rw [he] at hstep
    cases hstep
  · generalize ctrlTurn c t = r at hstep hfine
    cases hfine with
    | went h' => exact Option.some.inj hstep ▸ h'
    | abort => cases hstep
    | kernel => cases hstep

theorem index_ok_iff (h : Polling fifo sock c) (t : CtrlTurn) : IndexOk c t ↔ ¬ Overrun c t := by
  rcases turn_fate h t with ⟨ho, he⟩ | ⟨ho, hfine⟩
  · exact ⟨fun hok => absurd he (hok _), fun hn => absurd ho hn⟩
  · exact ⟨fun _ => ho, fun _ => hfine.no_index⟩

/-- The one slot a table starts with when there is a FIFO or a socket, but not both. -/
theorem single_filled {i : Int} (hi : 0 < sock → i = inetSlot fifo ∧ inetSlot fifo = 0 ∧ fd = sock)
    (hf : 0 < fifo → fd = fifo) :
    Filled fifo sock ⟨fifo, sock, i, 1, update (fun _ => ⟨0, false, false⟩) 0 ⟨fd, true, false⟩⟩ := by
  refine ⟨Int.le_refl 1, Int.ofNat_le.mpr (by decide), ?_, hf, ?_, rfl, fun _ => rfl, ?_⟩
  · intro i j hi hj _
    have hi : (i : Int) < 1 := hi
    have hj : (j : Int) < 1 := hj
    omega
  · intro hs
    obtain ⟨he, hslot, hfd⟩ := hi hs
    rw [hslot] at he ⊢
    exact ⟨he, Int.zero_lt_one, hfd⟩
  · intro i hi
    have hi : (1 : Int) ≤ i := hi
    simp [show i ≠ 0 by omega]

theorem pair_filled (hne : fifo ≠ sock) (hf : 0 < fifo) (hs : 0 < sock) :
    Filled fifo sock ⟨fifo, sock, 1, 2,
      update (update (fun _ => ⟨0, false, false⟩) 0 ⟨fifo, true, false⟩) 1 ⟨sock, true, false⟩⟩ := by
  have hslot : inetSlot fifo = 1 := if_pos hf
  refine ⟨by simp, Int.ofNat_le.mpr (by decide), ?_, fun _ => rfl, fun _ => ?_, rfl,
    fun hle => absurd hs (not_lt.mpr hle), ?_⟩
  · intro i j hi hj he
    have hi : (i : Int) < 2 := hi
    have hj : (j : Int) < 2 := hj
    have hi : i = 0 ∨ i = 1 := by omega
    have hj : j = 0 ∨ j = 1 := by omega
    rcases hi with rfl | rfl <;> rcases hj with rfl | rfl
    · rfl
    · exact absurd he hne
    · exact absurd he.symm hne
    · rfl
  · rw [hslot]
    exact ⟨rfl, by simp, rfl⟩
  · intro i hi
    have hi : (2 : Int) ≤ i := hi
    simp [show i ≠ 0 by omega, show i ≠ 1 by omega]

theorem create_table (hne : fifo ≠ sock) (h : glbCtrlCreate fifo sock listens = some c) :
    Polling fifo sock c := by
  have hmax : ctrlMax = 32 := rfl
  unfold glbCtrlCreate at h
  split at h
  · cases h
  · split at h
    · cases h
    · split at h
      · rename_i hf
        have hslot : inetSlot fifo = 1 := if_pos hf
        split at h <;> obtain rfl := Option.some.inj h
        · rename_i hs
          refine ⟨pair_filled hne hf hs, fun _ => ?_⟩
          rw [hslot]
          simp [hmax]
        · rename_i hs
          exact ⟨single_filled (fun hpos => absurd hpos hs) (fun _ => rfl), fun hpos => absurd hpos hs⟩
      · rename_i hf
        have hslot : inetSlot fifo = 0 := if_neg hf
        obtain rfl := Option.some.inj h
        refine ⟨single_filled (fun _ => ⟨by rw [hslot]; rfl, hslot, rfl⟩) (fun hpos => absurd hpos hf), fun _ => ?_⟩
        rw [hslot]
        simp [hmax]

/-- The table is in order at every turn of every run, and the thread stays inside it for
as long as no full table is scanned without a client leaving. -/
theorem ctrl_table_iff (hne : fifo ≠ sock) (h : glbCtrlCreate fifo sock listens = some c)
    (turns : List CtrlTurn) :
    (Along ctrlStep (fun c _ => Polling fifo sock c) c turns ∧
        ∀ c', exec ctrlStep c turns = some c' → Polling fifo sock c') ∧
      (Along ctrlStep IndexOk c turns ↔ Along ctrlStep (fun c t => ¬ Overrun c t) c turns) := by
  have ht := create_table hne h
  refine ⟨⟨along_invariant step_table (fun _ _ h => h) ht turns, fun _ => exec_invariant step_table ht⟩, ?_, ?_⟩
  · exact along_keeps (fun s l t hi _ => step_table s l t hi) (fun s l hi => (index_ok_iff hi l).mp) ht
  · exact along_keeps (fun s l t hi _ => step_table s l t hi) (fun s l hi => (index_ok_iff hi l).mpr) ht

/-- Clients connect one after another, and there is something to read from the FIFO. -/
def clients (n : Nat) : List CtrlTurn :=
  (List.range n).map fun i => ⟨1, (· == 1), 10 + i, fun _ => .served⟩

def fifoReady : CtrlTurn := ⟨1, (· == 0), -1, fun _ => .served⟩

theorem ctrl_table_two_clients :
    ∃ c, glbCtrlCreate 3 4 true = some c ∧ Along ctrlStep IndexOk c (clients 2 ++ [fifoReady]) :=
  have h : glbCtrlCreate 3 4 true = some _ := rfl
  ⟨_, h, (ctrl_table_iff (by decide) h _).2.mpr (by decide +kernel)⟩

/-- With thirty clients the table is full, and a message on the FIFO has entry 32 read. -/
theorem full_table_overread :
    ∃ c, glbCtrlCreate 3 4 true = some c ∧ ¬ Along ctrlStep IndexOk c (clients 30 ++ [fifoReady]) :=
  ⟨_, rfl, by decide +kernel⟩

end turn

end Glb.Proofs.CtrlTable
