import Glb.Standard
import Glb.Lib.CBuffer

namespace Glb.Proofs.DstGrammar
open Lib.Strto Lib.CBuffer

/-- A host is free of separators and not too long. -/
def Host (h : CStr) : Prop := dstSeparator ∉ h ∧ h.length ≤ dstIpLenMax

/-- A port is one or more decimal digits. -/
def PortText (p : CStr) (n : Nat) : Prop :=
  p ≠ [] ∧ (∀ c ∈ p, c.isDigit = true) ∧ n = Nat.ofDigitChars 10 p 0 ∧ n ≤ dstPortMax

/-- The grammar: a string with its host, port and weight and the number of its fields. A
weight is a real number, and its value the double that this is rounded to. -/
inductive Reads (round : ℚ → Double) (defaultPort : UInt16) : CStr → CStr → UInt16 → Double → Nat → Prop
  | host {h} (hh : Host h) : Reads round defaultPort h h defaultPort 1 1
  | port {h p n} (hh : Host h) (hp : PortText p n) :
      Reads round defaultPort (h ++ dstSeparator :: p) h (.ofNat n) 1 2
  | weight {h p n w x} (hh : Host h) (hp : PortText p n) (hw : realNumber w = some x) :
      Reads round defaultPort (h ++ dstSeparator :: (p ++ dstSeparator :: w)) h (.ofNat n) (round x) 3

/-- Accepted are the strings of the grammar whose hosts resolve, and they are read as
they are written. -/
def Exact (libc : LibcOf Double) (round : ℚ → Double) (defaultPort : UInt16) (s : CStr) : Prop :=
  ∀ dst fields, glbDstParse libc s defaultPort = .ok (dst, fields) ↔
    ∃ host port weight addr, Reads round defaultPort s host port weight fields ∧
      (libc.gethostbyname host).1 = some addr ∧ dst = ⟨⟨AF_INET, htons port, addr, 0⟩, weight⟩

section texts

def hostText (s : CStr) : CStr := s.takeWhile (· ≠ dstSeparator)

/-- A host that is not too long, and a port and a weight of the given kinds if they are
there. -/
def spelled (port weight : CStr → Bool) (s : CStr) : Bool :=
  (hostText s).length ≤ dstIpLenMax &&
    match s.dropWhile (· ≠ dstSeparator) with
    | [] => true
    | _ :: t => port (t.takeWhile (· ≠ dstSeparator)) &&
      match t.dropWhile (· ≠ dstSeparator) with
      | [] => true
      | _ :: w => weight w

def digitPort (p : CStr) : Bool := p ≠ [] && p.all Char.isDigit && Nat.ofDigitChars 10 p 0 ≤ dstPortMax

def realWeight (w : CStr) : Bool := (realNumber w).isSome

/-- Nothing, or a number behind blanks and maybe a sign. A minus counts it down from 2^64. -/
def loosePort (p : CStr) : Bool :=
  match scanInt isSpace p with
  | none => p.isEmpty
  | some (neg, n, rest) => rest.isEmpty &&
    if neg then n = 0 || 2 ^ 64 - dstPortMax ≤ n && n < 2 ^ 64 else n ≤ dstPortMax

/-- Nothing, or behind blanks a real number, an infinity or `nan`. -/
def looseWeight (w : CStr) : Bool :=
  w.isEmpty || (realNumber (w.dropWhile isSpace)).isSome || (special (w.dropWhile isSpace)).isSome

/-- The three ways to write a destination. -/
inductive Shape : CStr → Prop
  | host {h} (hh : dstSeparator ∉ h) : Shape h
  | port {h p} (hh : dstSeparator ∉ h) (hp : dstSeparator ∉ p) : Shape (h ++ dstSeparator :: p)
  | weight {h p w} (hh : dstSeparator ∉ h) (hp : dstSeparator ∉ p) :
      Shape (h ++ dstSeparator :: (p ++ dstSeparator :: w))

end texts

variable {α : Type} {defaultPort port : UInt16} {s h p t w : CStr} {n fields : Nat}

section fields

theorem cut_field (hh : dstSeparator ∉ h) (t : CStr) :
    (h ++ dstSeparator :: t).takeWhile (· ≠ dstSeparator) = h ∧
      (h ++ dstSeparator :: t).dropWhile (· ≠ dstSeparator) = dstSeparator :: t := by
  rw [List.takeWhile_append_of_pos (all_ne hh), List.dropWhile_append_of_pos (all_ne hh)]
  simp

theorem cut_last (hh : dstSeparator ∉ h) :
    h.takeWhile (· ≠ dstSeparator) = h ∧ h.dropWhile (· ≠ dstSeparator) = [] :=
  ⟨List.takeWhile_eq_self_iff.mpr (all_ne hh), List.dropWhile_eq_nil_iff.mpr (all_ne hh)⟩

/-- A string is one field, or a field and what follows its separator. -/
theorem field_cases (s : CStr) :
    dstSeparator ∉ s ∨ ∃ h t, s = h ++ dstSeparator :: t ∧ dstSeparator ∉ h := by
  by_cases hmem : dstSeparator ∈ s
  · obtain ⟨h, t, rfl, hh⟩ := List.eq_append_cons_of_mem hmem
    exact .inr ⟨h, t, rfl, hh⟩
  · exact .inl hmem

theorem shape_cases (s : CStr) : Shape s := by
  rcases field_cases s with hs | ⟨h, t, rfl, hh⟩
  · exact .host hs
  · rcases field_cases t with ht | ⟨p, w, rfl, hp⟩
    · exact .port hh ht
    · exact .weight hh hp

theorem digits_plain (hp : ∀ c ∈ p, c.isDigit = true) : dstSeparator ∉ p := by
  intro hmem
  have := hp _ hmem
  revert this
  decide

variable {kp kw : CStr → Bool}

theorem spelled_host (hh : dstSeparator ∉ h) : spelled kp kw h = true ↔ h.length ≤ dstIpLenMax := by
  obtain ⟨htake, hdrop⟩ := cut_last hh
  rw [spelled, hostText, htake, hdrop]
  simp

theorem spelled_port (hh : dstSeparator ∉ h) (hp : dstSeparator ∉ p) :
    spelled kp kw (h ++ dstSeparator :: p) = true ↔ h.length ≤ dstIpLenMax ∧ kp p = true := by
  obtain ⟨htake, hdrop⟩ := cut_field hh p
  obtain ⟨hport, hend⟩ := cut_last hp
  rw [spelled, hostText, htake, hdrop]
  dsimp only
  rw [hport, hend]
  simp

theorem spelled_weight (hh : dstSeparator ∉ h) (hp : dstSeparator ∉ p) :
    spelled kp kw (h ++ dstSeparator :: (p ++ dstSeparator :: w)) = true ↔
      h.length ≤ dstIpLenMax ∧ kp p = true ∧ kw w = true := by
  obtain ⟨htake, hdrop⟩ := cut_field hh (p ++ dstSeparator :: w)
  obtain ⟨hport, hrest⟩ := cut_field hp w
  rw [spelled, hostText, htake, hdrop]
  dsimp only
  rw [hport, hrest]
  simp

theorem digit_port_iff : digitPort p = true ↔ PortText p (Nat.ofDigitChars 10 p 0) := by
  simp [digitPort, PortText, and_assoc]

end fields

section parse
variable {libc : LibcOf α} {form : CStr → Option α} {dst : GlbDst α} {weight : α}

theorem parse_end_iff {addrStr : CStr} {ret : Nat} :
    dstParseEnd libc addrStr port weight ret = .ok (dst, fields) ↔
      fields = ret ∧ ∃ addr, (libc.gethostbyname addrStr).1 = some addr ∧
        dst = ⟨⟨AF_INET, htons port, addr, 0⟩, weight⟩ := by
  unfold dstParseEnd glbSockaddrInit
  dsimp only
  cases (libc.gethostbyname addrStr).1 with
  | none => simp
  | some addr =>
    simp only [Option.map_some, Except.ok.injEq, Prod.mk.injEq, Option.some.injEq, exists_eq_left', eq_comm,
      and_comm]

theorem parse_host_iff [One α] (hh : dstSeparator ∉ h) :
    glbDstParse libc h defaultPort = .ok (dst, fields) ↔ h.length ≤ dstIpLenMax ∧
      dstParseEnd libc h defaultPort dstDefaultWeight 1 = .ok (dst, fields) := by
  obtain ⟨htake, hdrop⟩ := cut_last hh
  unfold glbDstParse
  dsimp only
  rw [htake, hdrop]
  by_cases hlen : h.length > dstIpLenMax
  · simp [hlen, Nat.not_le.mpr hlen]
  · simp [hlen, Nat.not_lt.mp hlen]

/-- A string with a port is accepted exactly if its number ends where the string or the
field does, and a weight behind it where the string does. -/
theorem parse_behind_iff [One α] (hh : dstSeparator ∉ h) :
    glbDstParse libc (h ++ dstSeparator :: t) defaultPort = .ok (dst, fields) ↔
      h.length ≤ dstIpLenMax ∧ (libc.strtoul t).value ≤ dstPortMax ∧
        ((libc.strtoul t).rest = [] ∧
            dstParseEnd libc h (.ofNat (libc.strtoul t).value) dstDefaultWeight 2 = .ok (dst, fields) ∨
          ∃ w, (libc.strtoul t).rest = dstSeparator :: w ∧ (libc.strtod w).rest = [] ∧
            dstParseEnd libc h (.ofNat (libc.strtoul t).value) (libc.strtod w).value 3 = .ok (dst, fields)) := by
  obtain ⟨htake, hdrop⟩ := cut_field hh t
  unfold glbDstParse
  dsimp only
  rw [htake, hdrop]
  dsimp only
  by_cases hlen : h.length > dstIpLenMax
  · rw [if_pos hlen]
    simp [Nat.not_le.mpr hlen]
  · rw [if_neg hlen]
    by_cases hmax : (libc.strtoul t).value > dstPortMax
    · simp [hmax, Nat.not_le.mpr hmax]
    · cases hrest : (libc.strtoul t).rest with
      | nil => simp [hmax, Nat.not_lt.mp hmax, Nat.not_lt.mp hlen]
      | cons c w =>
        by_cases hc : c = dstSeparator
        · subst hc
          by_cases hend : (libc.strtod w).rest = []
          · simp [hend, hmax, Nat.not_lt.mp hmax, Nat.not_lt.mp hlen]
          · simp [hend, hmax]
        · simp [hc]

/-- A port of digits is read up to its end. -/
theorem port_text_read [Zero α] (hl : libc.Standard form) (hp : PortText p n) (ht : ∀ c ∈ t.head?, c.isDigit = false) :
    (libc.strtoul (p ++ t)).rest = t ∧ (libc.strtoul (p ++ t)).value = n := by
  obtain ⟨hne, hdigits, rfl, hmax⟩ := hp
  rw [hl.strtoul, strtoul, scan_digits is_space_digit hne hdigits ht]
  dsimp only
  generalize Nat.ofDigitChars 10 p 0 = n at hmax
  unfold dstPortMax at hmax
  have hvalue : (signed false n % 2 ^ 64).toNat = n := by
    unfold signed
    simp only [Bool.false_eq_true, if_false]
    omega
  rw [if_neg (by unfold ulongMax; omega), hvalue]
  exact ⟨rfl, rfl⟩

theorem port_accepted [Zero α] [One α] {addr : InAddr} (defaultPort : UInt16) (hl : libc.Standard form) (hh : Host h)
    (hp : PortText p n) (haddr : (libc.gethostbyname h).1 = some addr) :
    glbDstParse libc (h ++ dstSeparator :: p) defaultPort =
      .ok (⟨⟨AF_INET, htons (.ofNat n), addr, 0⟩, dstDefaultWeight⟩, 2) := by
  obtain ⟨hrest, hvalue⟩ := port_text_read (t := []) hl hp (by simp)
  rw [List.append_nil] at hrest hvalue
  rw [parse_behind_iff hh.1, hvalue]
  exact ⟨hh.2, hp.2.2.2, .inl ⟨hrest, parse_end_iff.mpr ⟨rfl, addr, haddr, rfl⟩⟩⟩

theorem port_range (neg : Bool) (n : Nat) :
    (if n > ulongMax then ulongMax else (signed neg n % 2 ^ 64).toNat) ≤ dstPortMax ↔
      (if neg then decide (n = 0) || decide (2 ^ 64 - dstPortMax ≤ n) && decide (n < 2 ^ 64)
        else decide (n ≤ dstPortMax)) = true := by
  unfold ulongMax dstPortMax
  cases neg with
  | false =>
    simp only [signed, Bool.false_eq_true, if_false, decide_eq_true_eq]
    split <;> omega
  | true =>
    simp only [signed, if_true, Bool.or_eq_true, Bool.and_eq_true, decide_eq_true_eq]
    split <;> omega

/-- The number at the beginning of a field leaves some end `u` of the field, and it is in
range and leaves nothing exactly if the field is a loose port. -/
theorem port_stops [Zero α] (hl : libc.Standard form) (hp : dstSeparator ∉ p) (ht : ∀ c ∈ t.head?, c = dstSeparator) :
    ∃ u, dstSeparator ∉ u ∧ (libc.strtoul (p ++ t)).rest = u ++ t ∧
      (loosePort p = true ↔ u = [] ∧ (libc.strtoul (p ++ t)).value ≤ dstPortMax) := by
  have hstop : ∀ c ∈ t.head?, isSpace c = false ∧ c.isDigit = false ∧ c ≠ '-' ∧ c ≠ '+' := fun c hc => by
    rw [ht c hc]
    decide
  rw [hl.strtoul, strtoul, scan_append hstop, loosePort]
  cases hp' : scanInt isSpace p with
  | none => exact ⟨p, hp, rfl, by simp [Conv.standard]⟩
  | some r =>
    obtain ⟨neg, n, rest⟩ := r
    refine ⟨rest, fun hmem => hp ((scan_suffix hp').subset hmem), ?_, ?_⟩
    · by_cases hmax : n > ulongMax
      · simp [hmax, Conv.standard]
      · simp [hmax, Conv.standard]
    · have hrange := port_range neg n
      have hvalue : (Conv.standard (if n > ulongMax then (ulongMax, rest ++ t, true)
          else ((signed neg n % 2 ^ 64).toNat, rest ++ t, false))).value =
          if n > ulongMax then ulongMax else (signed neg n % 2 ^ 64).toNat := by
        split <;> rfl
      simp only [Option.map_some]
      rw [hvalue, hrange, Bool.and_eq_true, List.isEmpty_iff]

theorem parse_fields_iff [Zero α] [One α] (hl : libc.Standard form) (hh : dstSeparator ∉ h) (hp : dstSeparator ∉ p)
    (ht : ∀ c ∈ t.head?, c = dstSeparator) :
    glbDstParse libc (h ++ dstSeparator :: (p ++ t)) defaultPort = .ok (dst, fields) ↔
      h.length ≤ dstIpLenMax ∧ loosePort p = true ∧
        (t = [] ∧
            dstParseEnd libc h (.ofNat (libc.strtoul (p ++ t)).value) dstDefaultWeight 2 = .ok (dst, fields) ∨
          ∃ w, t = dstSeparator :: w ∧ (libc.strtod w).rest = [] ∧
            dstParseEnd libc h (.ofNat (libc.strtoul (p ++ t)).value) (libc.strtod w).value 3 = .ok (dst, fields)) := by
  obtain ⟨u, hu, hrest, hloose⟩ := port_stops hl hp ht
  rw [parse_behind_iff hh, hrest, hloose]
  cases u with
  | nil => simp
  | cons c u =>
    have hc : c ≠ dstSeparator := fun he => hu (he ▸ List.mem_cons_self)
    simp [hc]

theorem parse_port_iff [Zero α] [One α] (hl : libc.Standard form) (hh : dstSeparator ∉ h) (hp : dstSeparator ∉ p) :
    glbDstParse libc (h ++ dstSeparator :: p) defaultPort = .ok (dst, fields) ↔ h.length ≤ dstIpLenMax ∧
      loosePort p = true ∧
        dstParseEnd libc h (.ofNat (libc.strtoul p).value) dstDefaultWeight 2 = .ok (dst, fields) := by
  simpa using parse_fields_iff (t := []) hl hh hp (by simp)

theorem parse_weight_iff [Zero α] [One α] (hl : libc.Standard form) (hh : dstSeparator ∉ h) (hp : dstSeparator ∉ p) :
    glbDstParse libc (h ++ dstSeparator :: (p ++ dstSeparator :: w)) defaultPort = .ok (dst, fields) ↔
      h.length ≤ dstIpLenMax ∧ loosePort p = true ∧ (libc.strtod w).rest = [] ∧
        dstParseEnd libc h (.ofNat (libc.strtoul (p ++ dstSeparator :: w)).value) (libc.strtod w).value 3 =
          .ok (dst, fields) := by
  simpa using parse_fields_iff (t := dstSeparator :: w) hl hh hp (by simp)

end parse

section grammar
variable {libc : LibcOf Double} {round : ℚ → Double} {weight : Double} {dst : GlbDst Double}

theorem resolves_iff {ret : Nat} :
    (∃ dst fields, dstParseEnd libc h port weight ret = .ok (dst, fields)) ↔
      (libc.gethostbyname h).1.isSome = true := by
  simp only [parse_end_iff, Option.isSome_iff_exists]
  constructor
  · rintro ⟨_, _, _, addr, haddr, _⟩
    exact ⟨addr, haddr⟩
  · rintro ⟨addr, haddr⟩
    exact ⟨_, _, rfl, addr, haddr, rfl⟩

theorem loose_weight_iff (hl : libc.Standard (double round)) : looseWeight w = true ↔ (libc.strtod w).rest = [] := by
  have hrest := congrArg Prod.snd (hl.strtod w)
  dsimp only at hrest
  rw [hrest, strtod_end_iff]
  simp [looseWeight, double, or_assoc]

/-- Accepted are the strings with a loose port and a loose weight whose hosts resolve. -/
theorem accepted_iff (hl : libc.Standard (double round)) (defaultPort : UInt16) (s : CStr) :
    (∃ dst fields, glbDstParse libc s defaultPort = .ok (dst, fields)) ↔
      (libc.gethostbyname (hostText s)).1.isSome = true ∧ spelled loosePort looseWeight s = true := by
  cases shape_cases s with
  | host hh =>
    rw [spelled_host hh, hostText, (cut_last hh).1]
    simp only [parse_host_iff hh, exists_and_left, resolves_iff, and_comm]
  | port hh hp =>
    rw [spelled_port hh hp, hostText, (cut_field hh _).1]
    simp only [parse_port_iff hl hh hp, exists_and_left, resolves_iff, and_assoc, and_comm]
  | weight hh hp =>
    rw [spelled_weight hh hp, hostText, (cut_field hh _).1, loose_weight_iff hl]
    simp only [parse_weight_iff hl hh hp, exists_and_left, resolves_iff, and_assoc, and_comm]

theorem real_number_read {x : ℚ} (hl : libc.Standard (double round)) (hw : realNumber w = some x) :
    (libc.strtod w).rest = [] ∧ (libc.strtod w).value = round x := by
  have hhead : w.dropWhile isSpace = w := by
    cases w with
    | nil => rfl
    | cons c w =>
      cases hc : isSpace c with
      | false => rw [List.dropWhile_cons_of_neg (by simp [hc])]
      | true =>
        rw [real_number_blank hc] at hw
        cases hw
  have hform : double round (w.dropWhile isSpace) = some (round x) := by
    rw [hhead, double, hw]
    rfl
  have heq := hl.strtod w
  rw [strtod_whole hform] at heq
  exact ⟨congrArg Prod.snd heq, congrArg Prod.fst heq⟩

/-- A string of the grammar is accepted if its host resolves. -/
theorem reads_accepted {host : CStr} {addr : InAddr} (hl : libc.Standard (double round))
    (hread : Reads round defaultPort s host port weight fields) (haddr : (libc.gethostbyname host).1 = some addr) :
    glbDstParse libc s defaultPort = .ok (⟨⟨AF_INET, htons port, addr, 0⟩, weight⟩, fields) := by
  cases hread with
  | host hh => exact (parse_host_iff hh.1).mpr ⟨hh.2, parse_end_iff.mpr ⟨rfl, addr, haddr, rfl⟩⟩
  | port hh hp => exact port_accepted defaultPort hl hh hp haddr
  | @weight _ p n w x hh hp hw =>
    obtain ⟨hrest, hvalue⟩ := port_text_read (t := dstSeparator :: w) hl hp (by simp [dstSeparator])
    obtain ⟨hend, hround⟩ := real_number_read hl hw
    rw [parse_behind_iff hh.1, hvalue]
    refine ⟨hh.2, hp.2.2.2, .inr ⟨w, hrest, hend, ?_⟩⟩
    rw [hround]
    exact parse_end_iff.mpr ⟨rfl, addr, haddr, rfl⟩

/-- The strings of the grammar are those with a port of digits and a real weight. -/
theorem reads_spelled {host : CStr} (hread : Reads round defaultPort s host port weight fields) :
    spelled digitPort realWeight s = true := by
  have hport : ∀ {p n}, PortText p n → dstSeparator ∉ p ∧ digitPort p = true := by
    rintro p n ⟨hne, hdigits, rfl, hmax⟩
    exact ⟨digits_plain hdigits, digit_port_iff.mpr ⟨hne, hdigits, rfl, hmax⟩⟩
  cases hread with
  | host hh => exact (spelled_host hh.1).mpr hh.2
  | port hh hp => exact (spelled_port hh.1 (hport hp).1).mpr ⟨hh.2, (hport hp).2⟩
  | weight hh hp hw => exact (spelled_weight hh.1 (hport hp).1).mpr ⟨hh.2, (hport hp).2, by rw [realWeight, hw]; rfl⟩

theorem spelled_reads (round : ℚ → Double) (defaultPort : UInt16) (h : spelled digitPort realWeight s = true) :
    ∃ port weight fields, Reads round defaultPort s (hostText s) port weight fields := by
  cases shape_cases s with
  | host hh =>
    rw [spelled_host hh] at h
    rw [hostText, (cut_last hh).1]
    exact ⟨_, _, _, .host ⟨hh, h⟩⟩
  | port hh hp =>
    rw [spelled_port hh hp] at h
    rw [hostText, (cut_field hh _).1]
    exact ⟨_, _, _, .port ⟨hh, h.1⟩ (digit_port_iff.mp h.2)⟩
  | weight hh hp =>
    rw [spelled_weight hh hp] at h
    rw [hostText, (cut_field hh _).1]
    obtain ⟨x, hx⟩ := Option.isSome_iff_exists.mp h.2.2
    exact ⟨_, _, _, .weight ⟨hh, h.1⟩ (digit_port_iff.mp h.2.1) hx⟩

/-- `glb_dst_parse` accepts exactly its grammar, but for strings whose host resolves and
whose port or weight is loose and not of the grammar. -/
theorem dst_grammar_iff (hl : libc.Standard (double round)) (defaultPort : UInt16) (s : CStr) :
    Exact libc round defaultPort s ↔
      ((libc.gethostbyname (hostText s)).1.isSome = true → spelled loosePort looseWeight s = true →
        spelled digitPort realWeight s = true) := by
  constructor
  · intro hexact hhost hloose
    obtain ⟨dst, fields, hok⟩ := (accepted_iff hl defaultPort s).mpr ⟨hhost, hloose⟩
    obtain ⟨host, port, weight, addr, hread, _, _⟩ := (hexact dst fields).mp hok
    exact reads_spelled hread
  · intro hspelled dst fields
    constructor
    · intro hok
      obtain ⟨hhost, hloose⟩ := (accepted_iff hl defaultPort s).mp ⟨dst, fields, hok⟩
      obtain ⟨addr, haddr⟩ := Option.isSome_iff_exists.mp hhost
      obtain ⟨port, weight, fields', hread⟩ := spelled_reads round defaultPort (hspelled hhost hloose)
      obtain ⟨rfl, rfl⟩ := Prod.mk.inj (Except.ok.inj (hok.symm.trans (reads_accepted hl hread haddr)))
      exact ⟨_, port, weight, addr, hread, haddr, rfl⟩
    · rintro ⟨host, port, weight, addr, hread, haddr, rfl⟩
      exact reads_accepted hl hread haddr

def oneHost : LibcOf Double := .sample (double .number) fun _ => some ⟨10, 0, 0, 1⟩

/-- A server with a port and a weight, read as it is written. -/
theorem dst_grammar_server :
    (∃ dst, glbDstParse oneHost ['h', ':', '8', '1', ':', '.', '5'] 80 = .ok (dst, 3) ∧ dst.weight = .number (1 / 2)) ∧
      Exact oneHost .number 80 ['h', ':', '8', '1', ':', '.', '5'] := by
  refine ⟨⟨⟨⟨AF_INET, htons 81, ⟨10, 0, 0, 1⟩, 0⟩, .number (1 / 2)⟩, by decide +kernel, rfl⟩, ?_⟩
  exact (dst_grammar_iff (sample_standard _ _) 80 _).mpr fun _ _ => by decide +kernel

/-- A string that is accepted and not of the grammar. -/
def Stray (s : String) (port : UInt16) (weight : Double) (fields : Nat) : Prop :=
  glbDstParse oneHost s.toList 80 = .ok (⟨⟨AF_INET, htons port, ⟨10, 0, 0, 1⟩, 0⟩, weight⟩, fields) ∧
    ¬ Exact oneHost .number 80 s.toList

theorem stray {s : String}
    (h : glbDstParse oneHost s.toList 80 = .ok (⟨⟨AF_INET, htons port, ⟨10, 0, 0, 1⟩, 0⟩, weight⟩, fields) ∧
      spelled digitPort realWeight s.toList = false) : Stray s port weight fields := by
  refine ⟨h.1, fun hexact => ?_⟩
  obtain ⟨_, _, _, _, hread, _, _⟩ := (hexact _ _).mp h.1
  exact Bool.false_ne_true (h.2.symm.trans (reads_spelled hread))

/-- An empty port is port 0 and an empty weight is weight 0; a sign is taken for a port's
and may turn it around; infinities and `nan` are taken for weights. -/
theorem empty_port_accepted :
    Stray "h:" 0 1 2 ∧ Stray "h:81:" 81 0 3 ∧ Stray "h::2" 0 (.number 2) 3 ∧ Stray "h:+81" 81 1 2 ∧
      Stray "h: 81" 81 1 2 ∧ Stray "h:-18446744073709551615" 1 1 2 ∧ Stray "h:81: 2" 81 (.number 2) 3 ∧
      Stray "h:81:nan" 81 .nan 3 ∧ Stray "h:81:-inf" 81 (.infinity true) 3 := by
  refine ⟨?_, ?_, ?_, ?_, ?_, ?_, ?_, ?_, ?_⟩
  all_goals
    apply stray
    decide +kernel

end grammar

end Glb.Proofs.DstGrammar
