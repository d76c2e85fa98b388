import Mathlib.Algebra.Group.Int.Defs
import Mathlib.Algebra.Group.Nat.Defs
import Mathlib.Data.Rat.Defs
import Mathlib.Data.List.TakeWhile
import Mathlib.Data.Nat.Notation

namespace Lib.Strto

variable {α : Type} {space : Char → Bool} {s t ds rest : List Char} {neg : Bool} {n : Nat}

section scan

def takeSign : List Char → Bool × List Char
  | '-' :: s => (true, s)
  | '+' :: s => (false, s)
  | s => (false, s)

/-- An integer in front of a text, behind blanks: its sign, its digits' value and the
text behind it. There is none without a digit. -/
def scanInt (space : Char → Bool) (s : List Char) : Option (Bool × Nat × List Char) :=
  let t := takeSign (s.dropWhile space)
  if t.2.takeWhile Char.isDigit = [] then none
  else some (t.1, Nat.ofDigitChars 10 (t.2.takeWhile Char.isDigit) 0, t.2.dropWhile Char.isDigit)

def signed (neg : Bool) (n : Nat) : Int := if neg then -n else n

/-- The longest of the first `k` prefixes of a text that is of a form. -/
def scanForm (form : List Char → Option α) (t : List Char) : Nat → Option (α × List Char)
  | 0 => (form []).map fun x => (x, t)
  | k + 1 =>
    match form (t.take (k + 1)) with
    | some x => some (x, t.drop (k + 1))
    | none => scanForm form t k

end scan

section convert

def longMax : Int := 2 ^ 63 - 1
def longMin : Int := -2 ^ 63
def ulongMax : Nat := 2 ^ 64 - 1

/-- `strtol` to base 10: the number, the text from `endptr` on, and whether it was out of
range. -/
def strtol (space : Char → Bool) (s : List Char) : Int × List Char × Bool :=
  match scanInt space s with
  | none => (0, s, false)
  | some (neg, n, rest) =>
    if signed neg n > longMax then (longMax, rest, true)
    else if signed neg n < longMin then (longMin, rest, true)
    else (signed neg n, rest, false)

/-- `strtoul` to base 10. A number with a minus wraps around. -/
def strtoul (space : Char → Bool) (s : List Char) : Nat × List Char × Bool :=
  match scanInt space s with
  | none => (0, s, false)
  | some (neg, n, rest) =>
    if n > ulongMax then (ulongMax, rest, true)
    else ((signed neg n % 2 ^ 64).toNat, rest, false)

/-- `strtod`, over any form that the text of a number may have. -/
def strtod [Zero α] (space : Char → Bool) (form : List Char → Option α) (s : List Char) : α × List Char :=
  let t := s.dropWhile space
  (scanForm form t t.length).getD (0, s)

end convert

section double

/-- What a `double` holds: a number, an infinity or neither. -/
inductive Double where
  | number (x : ℚ)
  | infinity (neg : Bool)
  | nan
  deriving DecidableEq, Repr

instance : Zero Double := ⟨.number 0⟩

instance : One Double := ⟨.number 1⟩

/-- How a numeral is written: in which base, and with an exponent of what behind which
letter. -/
structure Radix where
  base : Nat
  digit : Char → Bool
  mark : Char
  power : Nat

def decRadix : Radix := ⟨10, Char.isDigit, 'e', 10⟩

def hexRadix : Radix := ⟨16, fun c => c.isDigit || 'a' ≤ c.toLower && c.toLower ≤ 'f', 'p', 2⟩

def digitValue (c : Char) : Nat := if c.isDigit then c.toNat - '0'.toNat else c.toLower.toNat - 'a'.toNat + 10

def exponent (mark : Char) : List Char → Option Int
  | [] => some 0
  | c :: t =>
    let (neg, ds) := takeSign t
    if c.toLower = mark ∧ ds ≠ [] ∧ ds.all Char.isDigit then some (signed neg (Nat.ofDigitChars 10 ds 0)) else none

/-- A numeral behind its sign: digits, maybe a point among them, and maybe an exponent. -/
def numeral (r : Radix) (neg : Bool) (t : List Char) : Option ℚ :=
  let whole := t.takeWhile r.digit
  let t := t.dropWhile r.digit
  let frac := if t.head? = some '.' then t.tail.takeWhile r.digit else []
  let t := if t.head? = some '.' then t.tail.dropWhile r.digit else t
  let n := (whole ++ frac).foldl (fun n c => r.base * n + digitValue c) 0
  if whole ++ frac = [] then none
  else (exponent r.mark t).map fun e =>
    mkRat (signed neg (n * r.power ^ e.toNat)) (r.base ^ frac.length * r.power ^ (-e).toNat)

/-- The text of a real number. -/
def realNumber (t : List Char) : Option ℚ :=
  match takeSign t with
  | (neg, '0' :: x :: t) =>
    if x.toLower = 'x' then numeral hexRadix neg t else numeral decRadix neg ('0' :: x :: t)
  | (neg, t) => numeral decRadix neg t

/-- The texts that are no real numbers and pass for doubles all the same. -/
def special (t : List Char) : Option Double :=
  let (neg, t) := takeSign (t.map Char.toLower)
  if t = ['i', 'n', 'f'] ∨ t = ['i', 'n', 'f', 'i', 'n', 'i', 't', 'y'] then some (.infinity neg)
  else if t = ['n', 'a', 'n'] ∨ t.take 4 = ['n', 'a', 'n', '('] ∧ t.getLast? = some ')' ∧
      ((t.drop 4).dropLast).all (fun c => c.isAlphanum || c = '_') then some .nan
  else none

/-- The text of a double, where `round` takes the numbers to doubles. -/
def double (round : ℚ → Double) (t : List Char) : Option Double := ((realNumber t).map round).or (special t)

end double

theorem take_sign_plain (h : ∀ c ∈ t.head?, c ≠ '-' ∧ c ≠ '+') : takeSign t = (false, t) := by
  unfold takeSign
  split
  · exact absurd rfl (h _ rfl).1
  · exact absurd rfl (h _ rfl).2
  · rfl

theorem take_sign_append (h : ∀ c ∈ t.head?, c ≠ '-' ∧ c ≠ '+') :
    takeSign (s ++ t) = ((takeSign s).1, (takeSign s).2 ++ t) := by
  cases s with
  | nil => exact take_sign_plain h
  | cons c s =>
    by_cases hminus : c = '-'
    · subst hminus
      rfl
    · by_cases hplus : c = '+'
      · subst hplus
        rfl
      · have hc : ∀ {u} (x : Char), x ∈ (c :: u).head? → x ≠ '-' ∧ x ≠ '+' := by
          rintro u x ⟨⟩
          exact ⟨hminus, hplus⟩
        rw [List.cons_append, take_sign_plain hc, take_sign_plain hc]
        rfl

/-- A run ends in front of what is not of its kind. -/
theorem run_append {p : Char → Bool} (h : ∀ c ∈ t.head?, p c = false) :
    (s ++ t).takeWhile p = s.takeWhile p ∧ (s ++ t).dropWhile p = s.dropWhile p ++ t := by
  have ht : t.takeWhile p = [] ∧ t.dropWhile p = t := by
    cases t with
    | nil => exact ⟨rfl, rfl⟩
    | cons c t => simp [h c rfl]
  rw [List.takeWhile_append, List.dropWhile_append, ht.1, ht.2]
  constructor
  · split
    · rename_i hall
      rw [List.append_nil, (List.takeWhile_prefix p).eq_of_length hall]
    · rfl
  · split
    · rename_i hempty
      rw [List.isEmpty_iff.mp hempty, List.nil_append]
    · rfl

theorem take_while_digits (hds : ∀ c ∈ ds, c.isDigit = true) (hrest : ∀ c ∈ rest.head?, c.isDigit = false) :
    (ds ++ rest).takeWhile Char.isDigit = ds ∧ (ds ++ rest).dropWhile Char.isDigit = rest := by
  obtain ⟨htake, hdrop⟩ := run_append (s := ds) hrest
  rw [htake, hdrop, List.takeWhile_eq_self_iff.mpr hds, List.dropWhile_eq_nil_iff.mpr hds]
  exact ⟨rfl, rfl⟩

theorem digits_end (t : List Char) : ∀ c ∈ (t.dropWhile Char.isDigit).head?, c.isDigit = false := by
  intro c hc
  have hnot := List.head?_dropWhile_not Char.isDigit t
  rw [hc] at hnot
  simpa using hnot

/-- Digits that stand alone are their number. -/
theorem scan_digits (hspace : ∀ c, c.isDigit = true → space c = false) (hne : ds ≠ [])
    (hds : ∀ c ∈ ds, c.isDigit = true) (hrest : ∀ c ∈ rest.head?, c.isDigit = false) :
    scanInt space (ds ++ rest) = some (false, Nat.ofDigitChars 10 ds 0, rest) := by
  obtain ⟨c, cs, rfl⟩ := List.exists_cons_of_ne_nil hne
  have hc := hds c List.mem_cons_self
  obtain ⟨htake, hdrop⟩ := take_while_digits hds hrest
  unfold scanInt
  have hplain : ∀ x ∈ (c :: (cs ++ rest)).head?, x ≠ '-' ∧ x ≠ '+' := by
    rintro x ⟨⟩
    constructor <;>
    · rintro rfl
      cases hc
  rw [List.cons_append, List.dropWhile_cons_of_neg (by simp [hspace c hc]), take_sign_plain hplain,
    ← List.cons_append]
  dsimp only
  rw [htake, hdrop, if_neg (by simp)]

theorem take_sign_suffix (s : List Char) : (takeSign s).2 <:+ s := by
  unfold takeSign
  split
  · exact List.suffix_cons _ _
  · exact List.suffix_cons _ _
  · exact List.suffix_rfl

theorem scan_suffix (h : scanInt space s = some (neg, n, rest)) : rest <:+ s := by
  unfold scanInt at h
  obtain ⟨_, h⟩ := Option.ite_none_left_eq_some.mp h
  obtain ⟨rfl, rfl, rfl⟩ : _ ∧ _ ∧ _ := by simpa only [Option.some.injEq, Prod.mk.injEq] using h
  exact (List.dropWhile_suffix _).trans ((take_sign_suffix _).trans (List.dropWhile_suffix _))

theorem scan_form_whole {form : List Char → Option α} {x : α} (h : form t = some x) :
    scanForm form t t.length = some (x, []) := by
  cases t with
  | nil => simp [scanForm, h]
  | cons c t =>
    rw [List.length_cons, scanForm, ← List.length_cons, List.take_length, h, List.drop_length]

theorem scan_form_some {form : List Char → Option α} {x : α} {k : Nat} (h : scanForm form t k = some (x, rest)) :
    ∃ j, j ≤ k ∧ form (t.take j) = some x ∧ rest = t.drop j := by
  induction k with
  | zero =>
    obtain ⟨y, hy, heq⟩ := Option.map_eq_some_iff.mp h
    obtain ⟨rfl, rfl⟩ := Prod.mk.inj heq
    exact ⟨0, Nat.le_refl 0, hy, rfl⟩
  | succ k ih =>
    unfold scanForm at h
    split at h
    · rename_i y hy
      obtain ⟨rfl, rfl⟩ := Prod.mk.inj (Option.some.inj h)
      exact ⟨k + 1, Nat.le_refl _, hy, rfl⟩
    · obtain ⟨j, hj, hform, hrest⟩ := ih h
      exact ⟨j, Nat.le_succ_of_le hj, hform, hrest⟩

/-- A text of the form is converted to its end, behind blanks. -/
theorem strtod_whole [Zero α] {form : List Char → Option α} {x : α} (h : form (s.dropWhile space) = some x) :
    strtod space form s = (x, []) := by
  unfold strtod
  dsimp only
  rw [scan_form_whole h]
  rfl

/-- What is converted to its end is of the form behind blanks, or there is nothing. -/
theorem strtod_end_iff [Zero α] {form : List Char → Option α} :
    (strtod space form s).2 = [] ↔ s = [] ∨ (form (s.dropWhile space)).isSome = true := by
  constructor
  · intro h
    unfold strtod at h
    dsimp only at h
    generalize s.dropWhile space = t at h
    cases hscan : scanForm form t t.length with
    | none =>
      rw [hscan] at h
      exact .inl h
    | some r =>
      obtain ⟨x, rest⟩ := r
      rw [hscan] at h
      obtain ⟨j, _, hform, hrest⟩ := scan_form_some hscan
      rw [List.take_of_length_le (List.drop_eq_nil_iff.mp (hrest.symm.trans h))] at hform
      exact .inr (Option.isSome_iff_exists.mpr ⟨x, hform⟩)
  · rintro (rfl | hsome)
    · unfold strtod
      dsimp only [List.dropWhile_nil, List.length_nil, scanForm]
      cases form [] with
      | none => rfl
      | some x => rfl
    · obtain ⟨x, hx⟩ := Option.isSome_iff_exists.mp hsome
      rw [strtod_whole hx]

/-- What stops a number does not change it. -/
theorem scan_append (hstop : ∀ c ∈ t.head?, space c = false ∧ c.isDigit = false ∧ c ≠ '-' ∧ c ≠ '+') :
    scanInt space (s ++ t) = (scanInt space s).map fun r => (r.1, r.2.1, r.2.2 ++ t) := by
  unfold scanInt
  dsimp only
  rw [(run_append fun c hc => (hstop c hc).1).2, take_sign_append fun c hc => (hstop c hc).2.2]
  dsimp only
  obtain ⟨htake, hdrop⟩ := run_append (s := (takeSign (s.dropWhile space)).2) fun c hc => (hstop c hc).2.1
  rw [htake, hdrop]
  split
  · rfl
  · rfl

end Lib.Strto
