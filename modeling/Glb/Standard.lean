import Glb.Parse
import Glb.Lib.Strto

namespace Glb
open Lib

variable {α : Type}

/-- A conversion as the standard has it. `errno` is set when the number is out of range
and not otherwise. -/
def Conv.standard (r : α × List Char × Bool) : Conv α := ⟨r.1, r.2.1, if r.2.2 then some ERANGE else none⟩

/-- A C library that converts numbers as the standard has it, where `form` tells the
texts of doubles. -/
structure LibcOf.Standard [Zero α] (form : CStr → Option α) (libc : LibcOf α) : Prop where
  strtol : ∀ s, libc.strtol s = .standard (Strto.strtol isSpace s)
  strtoul : ∀ s, libc.strtoul s = .standard (Strto.strtoul isSpace s)
  strtod : ∀ s, ((libc.strtod s).value, (libc.strtod s).rest) = Strto.strtod isSpace form s

theorem is_space_digit (c : Char) (hc : c.isDigit = true) : isSpace c = false := by
  cases hs : isSpace c with
  | false => rfl
  | true =>
    simp only [isSpace, Bool.or_eq_true, decide_eq_true_eq] at hs
    rcases hs with ((((rfl | rfl) | rfl) | rfl) | rfl) | rfl <;> cases hc

/-- No real number begins with a blank. -/
theorem real_number_blank {c : Char} (hc : isSpace c = true) (s : CStr) : Strto.realNumber (c :: s) = none := by
  simp only [isSpace, Bool.or_eq_true, decide_eq_true_eq] at hc
  rcases hc with ((((rfl | rfl) | rfl) | rfl) | rfl) | rfl <;> rfl

section sample

/-- A C library with those doubles and the given hosts. -/
def LibcOf.sample [Zero α] (form : CStr → Option α) (hosts : CStr → Option InAddr) : LibcOf α where
  strtol s := .standard (Strto.strtol isSpace s)
  strtoul s := .standard (Strto.strtoul isSpace s)
  strtod s := ⟨(Strto.strtod isSpace form s).1, (Strto.strtod isSpace form s).2, none⟩
  gethostbyname s := (hosts s, none)

theorem sample_host [Zero α] (form : CStr → Option α) (hosts : CStr → Option InAddr) (s : CStr) :
    ((LibcOf.sample form hosts).gethostbyname s).1 = hosts s := rfl

theorem sample_standard [Zero α] (form : CStr → Option α) (hosts : CStr → Option InAddr) :
    (LibcOf.sample form hosts).Standard form :=
  ⟨fun _ => rfl, fun _ => rfl, fun _ => rfl⟩

def noHosts : Libc := .sample Strto.realNumber fun _ => none

/-- A host has an address for its first letter. -/
def letterHosts : Libc := .sample Strto.realNumber fun s => s.head?.map fun c => ⟨10, 0, 0, .ofNat c.toNat⟩

end sample

end Glb
