import Glb.Options
import Glb.Standard

namespace Glb.Proofs.LatFactor
open Lib.Strto

variable {libc : Libc} {real : CStr → Option ℚ} {text : CStr} {argc : Nat} {errno errno' lf v : Int}

def intMax : Int := 2 ^ 31 - 1

/-- The number that a text begins with, behind blanks. -/
def Written (text : CStr) (v : Int) : Prop := (scanInt isSpace text).map (fun r => signed r.1 r.2.1) = some v

/-- The factor is the number written, and the watchdog can divide by one more. -/
structure Divides (text : CStr) (lf : Int) : Prop where
  written : Written text lf
  range : 0 ≤ lf ∧ lf ≤ intMax - 1
  divisor : toInt (lf + 1) = lf + 1 ∧ 0 < lf + 1

instance (text : CStr) (v : Int) : Decidable (Written text v) := inferInstanceAs (Decidable (_ = _))

instance (text : CStr) (lf : Int) : Decidable (Divides text lf) :=
  decidable_of_iff (Written text lf ∧ (0 ≤ lf ∧ lf ≤ intMax - 1) ∧ toInt (lf + 1) = lf + 1 ∧ 0 < lf + 1)
    ⟨fun h => ⟨h.1, h.2.1, h.2.2⟩, fun h => ⟨h.written, h.range, h.divisor⟩⟩

/-- The text has a number, and it is in range. -/
def Fitting (text : CStr) : Prop := ∃ v, Written text v ∧ 0 ≤ v ∧ v ≤ intMax - 1

theorem to_int_small (hpos : 0 ≤ v) (hle : v ≤ intMax) : toInt v = v := by
  unfold intMax at hle
  exact Int.bmod_eq_of_le (by omega) (by omega)

/-- A number that fits an `int` is converted as it is written. -/
theorem strtol_written (hl : libc.Standard real) (h : Written text v) (hpos : 0 ≤ v) (hle : v ≤ intMax) :
    (libc.strtol text).value = v := by
  obtain ⟨⟨neg, n, rest⟩, hscan, rfl⟩ := Option.map_eq_some_iff.mp h
  dsimp only at hpos hle ⊢
  have hmax : ¬ signed neg n > longMax := by
    unfold intMax at hle
    unfold longMax
    omega
  have hmin : ¬ signed neg n < longMin := by
    unfold longMin
    omega
  rw [hl.strtol, Conv.standard, strtol, hscan]
  dsimp only
  rw [if_neg hmax, if_neg hmin]

/-- Where the factor is the number converted and cut to an `int`. -/
theorem divides_iff (hl : libc.Standard real) (hlf : lf = toInt (libc.strtol text).value) :
    Divides text lf ↔ Fitting text := by
  constructor
  · intro h
    exact ⟨lf, h.written, h.range⟩
  · rintro ⟨v, hw, hpos, hle⟩
    have hint : v ≤ intMax := by omega
    obtain rfl : lf = v := by rw [hlf, strtol_written hl hw hpos hint, to_int_small hpos hint]
    exact ⟨hw, ⟨hpos, hle⟩, to_int_small (by omega) (by omega), by omega⟩

theorem cmd_lat_factor {cnf cnf' : CmdCnf}
    (h : cmdOption libc argc (cnf, errno) ⟨Opt.latencyCount.val, some text⟩ = some (cnf', errno')) :
    cnf'.latFactor = toInt (libc.strtol text).value := by
  have hval : Opt.ofVal Opt.latencyCount.val = some .latencyCount := by decide
  unfold cmdOption at h
  simp only [hval] at h
  obtain ⟨_, h⟩ := Option.ite_none_left_eq_some.mp h
  obtain ⟨rfl, _⟩ := Prod.mk.inj (Option.some.inj h)
  rfl

theorem env_lat_factor {cnf cnf' : EnvCnf}
    (h : envOption libc cnf errno .latencyCount (some text) = (cnf', errno', true)) :
    cnf'.latFactor = toInt (libc.strtol text).value := by
  unfold envOption at h
  dsimp only at h
  split at h
  · obtain ⟨rfl, _⟩ := Prod.mk.inj h
    rfl
  · cases congrArg (fun x => x.2.2) h

/-- A latency count that is accepted is one that the watchdog can use exactly if it is
written and in range. -/
theorem lat_factor_divides_iff (hl : libc.Standard real) (text : CStr) :
    (∀ argc cnf errno cnf' errno',
      cmdOption libc argc (cnf, errno) ⟨Opt.latencyCount.val, some text⟩ = some (cnf', errno') →
      (Divides text cnf'.latFactor ↔ Fitting text)) ∧
    ∀ cnf errno cnf' errno', envOption libc cnf errno .latencyCount (some text) = (cnf', errno', true) →
      (Divides text cnf'.latFactor ↔ Fitting text) :=
  ⟨fun _ _ _ _ _ h => divides_iff hl (cmd_lat_factor h), fun _ _ _ _ h => divides_iff hl (env_lat_factor h)⟩

section texts

theorem lat_factor_divides_five :
    ∃ cnf errno, envOption noHosts (.defaults .round) 0 .latencyCount (some ['5']) = (cnf, errno, true) ∧
      Divides ['5'] cnf.latFactor := by
  have henv : envOption noHosts (.defaults .round) 0 .latencyCount (some ['5']) =
      ({ EnvCnf.defaults .round with latFactor := 5 }, 0, true) := by decide +kernel
  refine ⟨_, _, henv, ((lat_factor_divides_iff (sample_standard _ _) ['5']).2 _ _ _ _ henv).mpr ?_⟩
  exact ⟨5, by decide, by decide, by decide⟩

/-- `INT_MAX` overflows in the watchdog, 2^32 becomes 0 and libglb takes 2^31 for a
negative number; glbd takes a negative number for 1 and a text without a number for 0. -/
theorem lat_factor_misread :
    (∀ text ∈ [cstr "2147483647", cstr "4294967296", cstr "2147483648"],
      (envOption noHosts (.defaults .round) 0 .latencyCount (some text)).2.2 = true ∧
      ¬ Divides text (envOption noHosts (.defaults .round) 0 .latencyCount (some text)).1.latFactor) ∧
    ∀ r ∈ [(cstr "2147483647", 2147483647), (cstr "4294967296", 0), (cstr "-4294967295", 1), (cstr "", 0)],
      (cmdOption noHosts 4 (glbCnfInit ⟨500, id⟩ (.defaults .least), 0)
        ⟨Opt.latencyCount.val, some r.1⟩).map (fun s => s.1.latFactor) = some r.2 ∧ ¬ Divides r.1 r.2 := by
  decide +kernel

end texts

end Glb.Proofs.LatFactor
