import Glb.Options
import Glb.Standard

namespace Glb.Proofs.EnvVars

variable {libc : Libc} {calls : EnvCalls} {vars : EnvVars} {cnf o c : EnvCnf} {errno : Int} {mem : EnvMemory}
  {value : Option CStr}

/-- A variable that is not set leaves its fields as the options have them, and whatever
one is set to, the rest of the configuration is the same. -/
structure InForce (libc : Libc) (calls : EnvCalls) (vars : EnvVars) (o c : EnvCnf) : Prop where
  policy : vars.policy = none → c.policy = o.policy ∧ c.top = o.top
  control : vars.control = none → c.ctrlSet = o.ctrlSet ∧ c.ctrlAddr = o.ctrlAddr
  watchdog : vars.watchdog = none → c.watchdog = o.watchdog
  policyOnly : ∀ p, ∃ c', glbEnvParse libc calls { vars with policy := p } = some c' ∧
    c' = { c with policy := c'.policy, top := c'.top }
  controlOnly : ∀ p, ∃ c', glbEnvParse libc calls { vars with control := p } = some c' ∧
    c' = { c with ctrlSet := c'.ctrlSet, ctrlAddr := c'.ctrlAddr }
  watchdogOnly : ∀ p, ∃ c', glbEnvParse libc calls { vars with watchdog := p } = some c' ∧
    c' = { c with watchdog := c'.watchdog }

section passes

theorem bind_frame (h : envBind libc errno cnf value = some c) : c = { cnf with incAddr := c.incAddr } := by
  unfold envBind at h
  obtain ⟨h, _⟩ := Option.filter_eq_some_iff.mp h
  split at h
  · obtain ⟨addr, _, rfl⟩ := Option.map_eq_some_iff.mp h
    rfl
  · obtain rfl := Option.some.inj h
    rfl

theorem targets_frame (h : envTargets libc mem cnf value = some c) : c = { cnf with dst := c.dst } := by
  unfold envTargets at h
  obtain ⟨h, _⟩ := Option.filter_eq_some_iff.mp h
  split at h
  · split at h
    · obtain ⟨dstList, _, h⟩ := Option.bind_eq_some_iff.mp h
      obtain ⟨dst, _, rfl⟩ := Option.map_eq_some_iff.mp h
      rfl
    · obtain rfl := Option.some.inj h
      rfl
  · obtain rfl := Option.some.inj h
    rfl

theorem policy_pass (cnf : EnvCnf) (p : Option CStr) :
    envParsePolicy cnf p =
      { cnf with policy := (envParsePolicy cnf p).policy, top := (envParsePolicy cnf p).top } := by
  unfold envParsePolicy
  split
  · rfl
  · split
    · rfl
    · split
      · rfl
      · split <;> rfl

/-- The pass over `GLB_CONTROL` reads nothing that the pass over `GLB_POLICY` writes. -/
theorem control_pass (libc : Libc) (errno : Int) (cnf : EnvCnf) (p : Option CStr) (policy : Policy) (top : Bool) :
    envParseControl libc errno { cnf with policy := policy, top := top } p =
      { cnf with
        policy := policy, top := top, ctrlSet := (envParseControl libc errno cnf p).ctrlSet,
        ctrlAddr := (envParseControl libc errno cnf p).ctrlAddr } := by
  unfold envParseControl
  cases p with
  | none => rfl
  | some p =>
    dsimp only
    split <;> rfl

theorem watchdog_pass (strdup : Bool) (cnf : EnvCnf) (p : Option CStr) :
    envParseWatchdog strdup cnf p = { cnf with watchdog := (envParseWatchdog strdup cnf p).watchdog } := by
  cases p <;> rfl

theorem watchdog_reads (strdup : Bool) (cnf o : EnvCnf) (p : Option CStr) (h : o.watchdog = cnf.watchdog) :
    (envParseWatchdog strdup o p).watchdog = (envParseWatchdog strdup cnf p).watchdog := by
  cases p with
  | none => exact h
  | some p => rfl

/-- Each field after the passes is as its own pass would have left it. -/
theorem override_eq (libc : Libc) (calls : EnvCalls) (vars : EnvVars) (cnf : EnvCnf) :
    envOverride libc calls vars cnf =
      { cnf with
        policy := (envParsePolicy cnf vars.policy).policy
        top := (envParsePolicy cnf vars.policy).top
        ctrlSet := (envParseControl libc calls.errno cnf vars.control).ctrlSet
        ctrlAddr := (envParseControl libc calls.errno cnf vars.control).ctrlAddr
        watchdog := (envParseWatchdog calls.strdup cnf vars.watchdog).watchdog } := by
  unfold envOverride
  dsimp only
  rw [policy_pass, control_pass, watchdog_pass, watchdog_reads calls.strdup cnf]
  rfl

end passes

/-- The part of `glb_env_parse` before the passes. It reads none of their variables, and
their fields are as the options left them. -/
theorem env_parse_base (hc : glbEnvParse libc calls vars = some c)
    (ho : envParseOptions libc calls.options (.defaults .round) calls.errno vars.options = some o) :
    ∃ incAddr dst, ∀ p q w,
      glbEnvParse libc calls { vars with policy := p, control := q, watchdog := w } =
        some (envOverride libc calls { vars with policy := p, control := q, watchdog := w }
          { o with incAddr := incAddr, dst := dst }) := by
  unfold glbEnvParse at hc
  split at hc
  case isFalse => cases hc
  case isTrue hmalloc =>
    obtain ⟨o', ho', hc⟩ := Option.bind_eq_some_iff.mp hc
    obtain rfl := Option.some.inj (ho'.symm.trans ho)
    obtain ⟨b, hb, hc⟩ := Option.bind_eq_some_iff.mp hc
    obtain ⟨t, ht, _⟩ := Option.bind_eq_some_iff.mp hc
    have hfields : t = { o' with incAddr := b.incAddr, dst := t.dst } := by
      have hframe := targets_frame ht
      rw [bind_frame hb] at hframe
      exact hframe
    refine ⟨b.incAddr, t.dst, fun p q w => ?_⟩
    rw [← hfields]
    unfold glbEnvParse
    dsimp only
    rw [if_pos hmalloc, ho]
    dsimp only [bind, Option.bind]
    rw [hb]
    dsimp only
    rw [ht]

/-- The fields of the options are in force where their variables are not set, but for a
control address: it is forgotten unless `GLB_CONTROL` is set as well. -/
theorem unset_in_force_iff (libc : Libc) (calls : EnvCalls) (vars : EnvVars) (o c : EnvCnf)
    (hc : glbEnvParse libc calls vars = some c)
    (ho : envParseOptions libc calls.options (.defaults .round) calls.errno vars.options = some o) :
    InForce libc calls vars o c ↔ vars.control ≠ none ∨ o.ctrlSet = false := by
  obtain ⟨incAddr, dst, hbase⟩ := env_parse_base hc ho
  have hself := hbase vars.policy vars.control vars.watchdog
  obtain rfl := Option.some.inj (hc.symm.trans hself)
  constructor
  · intro h
    by_cases hunset : vars.control = none
    · right
      obtain ⟨hset, _⟩ := h.control hunset
      rw [override_eq, hunset] at hset
      exact hset.symm
    · exact .inl hunset
  · intro h
    refine ⟨fun hunset => ?_, fun hunset => ?_, fun hunset => ?_, fun p => ?_, fun q => ?_, fun w => ?_⟩
    · rw [override_eq, hunset]
      exact ⟨rfl, rfl⟩
    · have hset := h.resolve_left (not_not_intro hunset)
      rw [override_eq, hunset, hset]
      exact ⟨rfl, rfl⟩
    · rw [override_eq, hunset]
      rfl
    · refine ⟨_, hbase p vars.control vars.watchdog, ?_⟩
      rw [override_eq, override_eq]
    · refine ⟨_, hbase vars.policy q vars.watchdog, ?_⟩
      rw [override_eq, override_eq]
    · refine ⟨_, hbase vars.policy vars.control w, ?_⟩
      rw [override_eq, override_eq]

def someCalls : EnvCalls := ⟨true, ⟨true, fun _ => true, true⟩, ⟨true, fun _ => true, true⟩, true, 0⟩

/-- The options name a policy and a control address, and `GLB_POLICY` another policy. -/
def someVars (control : Option CStr) : EnvVars :=
  { options := some (cstr "--top -s -c h:4567 a:80 b c:1:5"), bind := none, targets := none,
    policy := some (cstr "random"), control := control, watchdog := none }

theorem unset_in_force_with_control :
    ∃ o c, envParseOptions letterHosts someCalls.options (.defaults .round) someCalls.errno
        (someVars (some (cstr "h:99"))).options = some o ∧
      glbEnvParse letterHosts someCalls (someVars (some (cstr "h:99"))) = some c ∧
      InForce letterHosts someCalls (someVars (some (cstr "h:99"))) o c := by
  obtain ⟨o, ho⟩ := Option.isSome_iff_exists.mp (show (envParseOptions letterHosts someCalls.options
    (.defaults .round) someCalls.errno (someVars (some (cstr "h:99"))).options).isSome by decide +kernel)
  obtain ⟨c, hc⟩ := Option.isSome_iff_exists.mp
    (show (glbEnvParse letterHosts someCalls (someVars (some (cstr "h:99")))).isSome by decide +kernel)
  exact ⟨o, c, ho, hc, (unset_in_force_iff _ _ _ _ _ hc ho).mpr (.inl (by decide))⟩

/-- `-c h:4567` without `GLB_CONTROL`: the address is there and the flag is gone. -/
theorem control_option_forgotten :
    ∃ o c, envParseOptions letterHosts someCalls.options (.defaults .round) someCalls.errno
        (someVars none).options = some o ∧
      glbEnvParse letterHosts someCalls (someVars none) = some c ∧ o.ctrlSet = true ∧ c.ctrlSet = false ∧
      c.ctrlAddr = o.ctrlAddr ∧ ¬ InForce letterHosts someCalls (someVars none) o c := by
  obtain ⟨o, ho⟩ := Option.isSome_iff_exists.mp (show (envParseOptions letterHosts someCalls.options
    (.defaults .round) someCalls.errno (someVars none).options).isSome by decide +kernel)
  obtain ⟨c, hc⟩ := Option.isSome_iff_exists.mp
    (show (glbEnvParse letterHosts someCalls (someVars none)).isSome by decide +kernel)
  have hflags : (envParseOptions letterHosts someCalls.options (.defaults .round) someCalls.errno
      (someVars none).options).map (·.ctrlSet) = some true ∧
      (glbEnvParse letterHosts someCalls (someVars none)).map (·.ctrlSet) = some false := by decide +kernel
  have haddr : (glbEnvParse letterHosts someCalls (someVars none)).map (·.ctrlAddr) =
      (envParseOptions letterHosts someCalls.options (.defaults .round) someCalls.errno
        (someVars none).options).map (·.ctrlAddr) := by decide +kernel
  rw [ho, hc] at hflags haddr
  have hset : o.ctrlSet = true := Option.some.inj hflags.1
  have hclear : c.ctrlSet = false := Option.some.inj hflags.2
  refine ⟨o, c, ho, hc, hset, hclear, Option.some.inj haddr, fun h => ?_⟩
  have hkept := (h.control rfl).1
  rw [hset, hclear] at hkept
  cases hkept

end Glb.Proofs.EnvVars
