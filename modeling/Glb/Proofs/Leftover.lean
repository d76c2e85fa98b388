import Glb.Options
import Glb.Standard
import Glb.Proofs.FrontEnds

namespace Glb.Proofs.Leftover
open Lib.Getopt Lib.Run FrontEnds

/-- The C library in a run in which the look-ups of hosts leave `errno` like this. -/
def leaving (libc : Libc) (left : CStr → Option Int) : Libc :=
  { libc with gethostbyname := fun s => ((libc.gethostbyname s).1, left s) }

/-- What a number sets `errno` to, where nothing but `errno` decides on it. -/
def decides (r : Conv α) (range : Bool) : Option (Option Int) :=
  if r.rest.head?.all isSpace && range then some r.errn else none

def cmdDecides (libc : Libc) (ret : Ret) : Option (Option Int) :=
  match Opt.ofVal ret.opt, ret.optarg with
  | some .latencyCount, some optarg => decides (libc.strtol optarg) (0 ≤ toInt (libc.strtol optarg).value)
  | some .interval, some optarg => decides (libc.strtod optarg) (0 < glbTimeFromDouble (libc.strtod optarg).value)
  | some .maxConn, some optarg => decides (libc.strtol optarg) true
  | some .nThreads, some optarg => decides (libc.strtol optarg) true
  | some .extraPolls, some optarg => decides (libc.strtod optarg) (0 ≤ glbTimeFromDouble (libc.strtod optarg).value)
  | _, _ => none

def envDecides (libc : Libc) (opt : Opt) (next : Option CStr) : Option (Option Int) :=
  match opt, next with
  | .interval, some value => decides (libc.strtod value) (0 < glbTimeFromDouble (libc.strtod value).value)
  | .latencyCount, some value => decides (libc.strtol value) (0 ≤ (libc.strtol value).value)
  | .extraPolls, some value => decides (libc.strtod value) (0 ≤ glbTimeFromDouble (libc.strtod value).value)
  | _, _ => none

/-- Where `errno` decides, it is clear in both runs or in neither. -/
def ClearAlike (decides : Option (Option Int)) (errno errno' : Int) : Prop :=
  ∀ errn ∈ decides, leaves errn errno = 0 ↔ leaves errn errno' = 0

/-- The tokens left to `env_parse_options`, its configuration and `errno`. -/
structure EnvLoop where
  argv : List CStr
  cnf : EnvCnf
  errno : Int

/-- An iteration of the loop of `env_parse_options`. There is none at `end_opts`. -/
def envStep (libc : Libc) (s : EnvLoop) (_ : Unit) : Option EnvLoop :=
  match s.argv with
  | [] => none
  | t :: ts => (envOptionIs t).map fun opt =>
    match envOption libc s.cnf s.errno opt ts.head?, ts with
    | (cnf, errno, true), _ :: ts => ⟨ts, cnf, errno⟩
    | (cnf, errno, _), ts => ⟨ts, cnf, errno⟩

/-- What an iteration leaves for the next, apart from `errno`. -/
def EnvLoop.seen (s : EnvLoop) : List CStr × EnvCnf := (s.argv, s.cnf)

def EnvAlike (libc : Libc) (s s' : EnvLoop) (_ : Unit) : Prop :=
  match s.argv with
  | [] => True
  | t :: ts => ∀ opt ∈ envOptionIs t, ClearAlike (envDecides libc opt ts.head?) s.errno s'.errno

variable {α : Type} {libc : Libc} {left left' : CStr → Option Int} {errno errno' : Int} {argc : Nat} {ret : Ret}
  {cnf : CmdCnf} {opt : Opt} {next : Option CStr} {s s' t : EnvLoop}

@[simp] theorem leaving_strtol : (leaving libc left).strtol = libc.strtol := rfl

@[simp] theorem leaving_strtod : (leaving libc left).strtod = libc.strtod := rfl

section numbers

theorem clean_eq (r : Conv α) (errno : Int) :
    r.clean errno = (r.rest.head?.all isSpace && decide (leaves r.errn errno = 0)) := by
  unfold Conv.clean
  cases r.rest with
  | nil => rfl
  | cons c rest => rfl

/-- Two runs take or leave a number alike exactly if `errno` is alike where it decides. -/
theorem clean_alike (r : Conv α) (range : Bool) :
    (r.clean errno && range) = (r.clean errno' && range) ↔ ClearAlike (decides r range) errno errno' := by
  rw [clean_eq, clean_eq]
  unfold ClearAlike decides
  cases r.rest.head?.all isSpace with
  | false => simp
  | true =>
    cases range with
    | false => simp
    | true => simp

theorem cmd_number (r : Conv α) (cnf : CmdCnf) :
    (if !r.clean errno then none else some (cnf, leaves r.errn errno)).map Prod.fst =
        (if !r.clean errno' then none else some (cnf, leaves r.errn errno')).map Prod.fst ↔
      ClearAlike (decides r true) errno errno' := by
  rw [← clean_alike]
  cases r.clean errno <;> cases r.clean errno' <;> simp

theorem cmd_number_range (r : Conv α) (cnf : CmdCnf) {bad : Prop} [Decidable bad] {range : Bool}
    (hrange : range = true ↔ ¬ bad) :
    (if !r.clean errno || decide bad then none else some (cnf, leaves r.errn errno)).map Prod.fst =
        (if !r.clean errno' || decide bad then none else some (cnf, leaves r.errn errno')).map Prod.fst ↔
      ClearAlike (decides r range) errno errno' := by
  rw [← clean_alike]
  by_cases hbad : bad
  · have hfalse : range = false := by simpa [hbad] using hrange
    simp [hbad, hfalse]
  · rw [hrange.mpr hbad]
    cases r.clean errno <;> cases r.clean errno' <;> simp [hbad]

theorem addr_leaving (libc : Libc) (left left' : CStr → Option Int) (errno errno' : Int) (str default : CStr) :
    (glbParseAddr (leaving libc left) str default errno).1 = (glbParseAddr (leaving libc left') str default errno').1 := by
  have hport : ∀ addrStr portStr, (parsePort (leaving libc left) addrStr portStr errno).1 =
      (parsePort (leaving libc left') addrStr portStr errno').1 := by
    intro addrStr portStr
    unfold parsePort
    dsimp only [leaving]
    split
    · rfl
    · rfl
  unfold glbParseAddr
  split
  · exact hport _ _
  · dsimp only
    split
    · rfl
    · exact hport _ _

theorem addr_alike (libc : Libc) (left left' : CStr → Option Int) (errno errno' : Int) (str default : CStr) :
    ∃ addr e e', glbParseAddr (leaving libc left) str default errno = (addr, e) ∧
      glbParseAddr (leaving libc left') str default errno' = (addr, e') := by
  refine ⟨_, _, (glbParseAddr (leaving libc left') str default errno').2, rfl, ?_⟩
  exact Prod.ext (addr_leaving libc left left' errno errno' str default).symm rfl

end numbers

section cmd

theorem cmd_alike :
    (cmdOption (leaving libc left) argc (cnf, errno) ret).map Prod.fst =
        (cmdOption (leaving libc left') argc (cnf, errno') ret).map Prod.fst ↔
      ClearAlike (cmdDecides libc ret) errno errno' := by
  unfold cmdOption cmdDecides
  simp only [leaving_strtol, leaving_strtod]
  cases hopt : Opt.ofVal ret.opt with
  | none => simp [ClearAlike]
  | some opt =>
    cases harg : ret.optarg with
    | none =>
      cases opt with
      | version => by_cases hargc : argc = 2 <;> simp [ClearAlike, hargc]
      | _ => simp [ClearAlike]
    | some optarg =>
      cases opt with
      | latencyCount => exact cmd_number_range (libc.strtol optarg) _ (by rw [decide_eq_true_eq, not_lt])
      | interval => exact cmd_number_range (libc.strtod optarg) _ (by rw [decide_eq_true_eq, not_le])
      | maxConn => exact cmd_number (libc.strtol optarg) _
      | nThreads => exact cmd_number (libc.strtol optarg) _
      | extraPolls => exact cmd_number_range (libc.strtod optarg) _ (by rw [decide_eq_true_eq, not_lt])
      | control =>
        refine iff_of_true ?_ (by simp [ClearAlike])
        obtain ⟨addr, e, e', hone, htwo⟩ := addr_alike libc left left' errno errno' optarg cmdCtrlAddrDefault
        dsimp only
        rw [hone, htwo]
        cases addr with
        | none => rfl
        | some addr => rfl
      | version => by_cases hargc : argc = 2 <;> simp [ClearAlike, hargc]
      | _ => simp [ClearAlike]

end cmd

section env

/-- What an iteration makes of the configuration, and whether it takes the next token. -/
def made (r : EnvCnf × Int × Bool) : EnvCnf × Bool := (r.1, r.2.2)

theorem env_number (r : Conv α) (range : Bool) (cnf cnf' : EnvCnf) :
    made (if r.clean errno && range then (cnf', leaves r.errn errno, true) else (cnf, leaves r.errn errno, false)) =
        made (if r.clean errno' && range then (cnf', leaves r.errn errno', true)
          else (cnf, leaves r.errn errno', false)) ↔
      ClearAlike (decides r range) errno errno' := by
  rw [← clean_alike]
  cases r.clean errno && range <;> cases r.clean errno' && range <;> simp [made]

theorem env_alike (libc : Libc) (left left' : CStr → Option Int) (cnf : EnvCnf) :
    made (envOption (leaving libc left) cnf errno opt next) = made (envOption (leaving libc left') cnf errno' opt next) ↔
      ClearAlike (envDecides libc opt next) errno errno' := by
  unfold envOption envDecides
  simp only [leaving_strtol, leaving_strtod]
  cases next with
  | none => cases opt <;> simp [ClearAlike, made]
  | some value =>
    cases opt with
    | interval => exact env_number (libc.strtod value) _ _ _
    | latencyCount => exact env_number (libc.strtol value) _ _ _
    | extraPolls => exact env_number (libc.strtod value) _ _ _
    | control =>
      refine iff_of_true ?_ (by simp [ClearAlike])
      obtain ⟨addr, e, e', hone, htwo⟩ := addr_alike libc left left' errno errno' value envCtrlAddrDefault
      dsimp only
      rw [hone, htwo]
      cases addr with
      | none => rfl
      | some addr => rfl
    | _ => simp [ClearAlike, made]

theorem env_untaken (libc : Libc) (cnf : EnvCnf) (errno : Int) (opt : Opt) :
    (envOption libc cnf errno opt none).2.2 = false := by
  cases opt <;> rfl

theorem env_step_alike (libc : Libc) (left left' : CStr → Option Int) (s s' : EnvLoop) (u : Unit)
    (h : s.seen = s'.seen) :
    (envStep (leaving libc left) s u).map EnvLoop.seen = (envStep (leaving libc left') s' u).map EnvLoop.seen ↔
      EnvAlike libc s s' u := by
  obtain ⟨argv, cnf, errno⟩ := s
  obtain ⟨argv', cnf', errno'⟩ := s'
  obtain ⟨rfl, rfl⟩ := Prod.mk.inj h
  unfold envStep EnvAlike
  cases argv with
  | nil => simp
  | cons t ts =>
    dsimp only
    cases envOptionIs t with
    | none => simp
    | some opt =>
      simp only [Option.map_some, Option.some.injEq, Option.mem_some_iff, forall_eq']
      rw [← env_alike libc left left' cnf]
      have hone := env_untaken (leaving libc left) cnf errno opt
      have htwo := env_untaken (leaving libc left') cnf errno' opt
      cases ts with
      | nil =>
        rw [List.head?_nil]
        generalize envOption (leaving libc left) cnf errno opt none = one at hone ⊢
        generalize envOption (leaving libc left') cnf errno' opt none = two at htwo ⊢
        simp [made, EnvLoop.seen, hone, htwo]
      | cons v ts =>
        rcases envOption (leaving libc left) cnf errno opt (v :: ts).head? with ⟨c, e, b⟩
        rcases envOption (leaving libc left') cnf errno' opt (v :: ts).head? with ⟨c', e', b'⟩
        cases b <;> cases b' <;> simp [made, EnvLoop.seen]

/-- An iteration leaves the loop less to do, and its end is the end of the rest. -/
theorem env_options_step (h : envStep libc s () = some t) :
    t.argv.length < s.argv.length ∧
      envOptions libc s.argv s.cnf s.errno = envOptions libc t.argv t.cnf t.errno := by
  obtain ⟨argv, cnf, errno⟩ := s
  unfold envStep at h
  cases argv with
  | nil => cases h
  | cons t ts =>
    obtain ⟨opt, hopt, rfl⟩ := Option.map_eq_some_iff.mp h
    dsimp only
    rw [envOptions, hopt]
    dsimp only
    cases ts with
    | nil =>
      rcases envOption libc cnf errno opt _ with ⟨c, e, b⟩
      cases b <;> exact ⟨Nat.zero_lt_one, rfl⟩
    | cons v ts =>
      rcases envOption libc cnf errno opt _ with ⟨c, e, b⟩
      cases b with
      | true => exact ⟨by simp only [List.length_cons]; omega, rfl⟩
      | false => exact ⟨Nat.lt_succ_self _, rfl⟩

theorem env_options_end (h : envStep libc s () = none) :
    envOptions libc s.argv s.cnf s.errno = (s.cnf, s.errno, s.argv) := by
  obtain ⟨argv, cnf, errno⟩ := s
  unfold envStep at h
  cases argv with
  | nil => rfl
  | cons t ts =>
    dsimp only
    rw [envOptions, Option.map_eq_none_iff.mp h]

def EnvSame (libc : Libc) (left left' : CStr → Option Int) (s s' : EnvLoop) : Prop :=
  ∀ n, (exec (envStep (leaving libc left)) s (List.replicate n ())).map EnvLoop.seen =
    (exec (envStep (leaving libc left')) s' (List.replicate n ())).map EnvLoop.seen

theorem env_options_same (h : EnvSame libc left left' s s') :
    (envOptions (leaving libc left) s.argv s.cnf s.errno).1 =
        (envOptions (leaving libc left') s'.argv s'.cnf s'.errno).1 ∧
      (envOptions (leaving libc left) s.argv s.cnf s.errno).2.2 =
        (envOptions (leaving libc left') s'.argv s'.cnf s'.errno).2.2 := by
  generalize hlen : s.argv.length = len
  induction len using Nat.strongRecOn generalizing s s' with
  | ind len ih =>
    obtain ⟨hargv, hcnf⟩ : s.argv = s'.argv ∧ s.cnf = s'.cnf := by simpa [exec, EnvLoop.seen] using h 0
    have hone : (envStep (leaving libc left) s ()).map EnvLoop.seen =
        (envStep (leaving libc left') s' ()).map EnvLoop.seen := by simpa [exec] using h 1
    cases ht : envStep (leaving libc left) s () with
    | none =>
      rw [ht] at hone
      rw [env_options_end ht, env_options_end (Option.map_eq_none_iff.mp hone.symm)]
      exact ⟨hcnf, hargv⟩
    | some t =>
      rw [ht] at hone
      obtain ⟨t', ht', _⟩ := Option.map_eq_some_iff.mp hone.symm
      obtain ⟨hshort, hrest⟩ := env_options_step ht
      rw [hrest, (env_options_step ht').2]
      refine ih _ (hlen ▸ hshort) (fun n => ?_) rfl
      have hn := h (n + 1)
      rwa [List.replicate_succ, exec_cons, exec_cons, ht, ht'] at hn

theorem operands_leaving (realloc : Bool) (cnf : EnvCnf) (ts : List CStr) :
    envOperands (leaving libc left) realloc cnf errno ts = envOperands (leaving libc left') realloc cnf errno' ts := by
  unfold envOperands
  cases ts with
  | nil => rfl
  | cons t ts =>
    dsimp only
    rw [addr_leaving libc left left' errno errno' t]
    rfl

theorem env_parse_same {mem : EnvMemory} {cnf : EnvCnf} {opts : Option CStr}
    (h : ∀ str ∈ opts, ∀ argv ∈ glbParseTokenString mem.calloc str '\x00',
      EnvSame libc left left' ⟨argv, cnf, errno⟩ ⟨argv, cnf, errno'⟩) :
    envParseOptions (leaving libc left) mem cnf errno opts = envParseOptions (leaving libc left') mem cnf errno' opts := by
  unfold envParseOptions
  cases opts with
  | none => rfl
  | some str =>
    dsimp only
    split
    · cases hargv : glbParseTokenString mem.calloc str '\x00' with
      | none => rfl
      | some argv =>
        obtain ⟨hcnf, hrest⟩ := env_options_same (h str rfl argv hargv)
        dsimp only at hcnf hrest ⊢
        rw [hcnf, hrest]
        exact operands_leaving mem.realloc _ _
    · rfl

end env

section runs

/-- `cmd_parse_options` accepts and rejects the same values in two runs. -/
def CmdSame (libc : Libc) (left left' : CStr → Option Int) (argv : List CStr) (cnf : CmdCnf) (errno errno' : Int) :
    Prop :=
  (cmdParseOptions (leaving libc left) argv cnf errno).map Prod.fst =
      (cmdParseOptions (leaving libc left') argv cnf errno').map Prod.fst ∧
    ∀ k, (exec (cmdOption (leaving libc left) (argv.length + 1)) (cnf, errno)
        ((getoptLong cmdOptstring glbOptions argv).1.take k)).map Prod.fst =
      (exec (cmdOption (leaving libc left') (argv.length + 1)) (cnf, errno')
        ((getoptLong cmdOptstring glbOptions argv).1.take k)).map Prod.fst

/-- `env_parse_options` produces the same configuration in two runs, from the same
values. -/
def EnvParseSame (libc : Libc) (left left' : CStr → Option Int) (mem : EnvMemory) (cnf : EnvCnf)
    (opts : Option CStr) (errno errno' : Int) : Prop :=
  envParseOptions (leaving libc left) mem cnf errno opts = envParseOptions (leaving libc left') mem cnf errno' opts ∧
    ∀ str ∈ opts, ∀ argv ∈ glbParseTokenString mem.calloc str '\x00',
      EnvSame libc left left' ⟨argv, cnf, errno⟩ ⟨argv, cnf, errno'⟩

/-- `errno` is alike in two runs wherever it decides on an option. -/
def CmdAlike (libc : Libc) (left left' : CStr → Option Int) (argv : List CStr) (cnf : CmdCnf) (errno errno' : Int) :
    Prop :=
  Along₂ (cmdOption (leaving libc left) (argv.length + 1)) (cmdOption (leaving libc left') (argv.length + 1))
    (fun s s' ret => ClearAlike (cmdDecides libc ret) s.2 s'.2) (cnf, errno) (cnf, errno')
    (getoptLong cmdOptstring glbOptions argv).1

def EnvParseAlike (libc : Libc) (left left' : CStr → Option Int) (mem : EnvMemory) (cnf : EnvCnf)
    (opts : Option CStr) (errno errno' : Int) : Prop :=
  ∀ str ∈ opts, ∀ argv ∈ glbParseTokenString mem.calloc str '\x00', ∀ n,
    Along₂ (envStep (leaving libc left)) (envStep (leaving libc left')) (EnvAlike libc)
      ⟨argv, cnf, errno⟩ ⟨argv, cnf, errno'⟩ (List.replicate n ())

theorem cmd_same_iff (argv : List CStr) (cnf : CmdCnf) :
    CmdSame libc left left' argv cnf errno errno' ↔ CmdAlike libc left left' argv cnf errno errno' := by
  have hstep : ∀ (s s' : CmdCnf × Int) (ret : Ret), s.1 = s'.1 →
      ((cmdOption (leaving libc left) (argv.length + 1) s ret).map Prod.fst =
        (cmdOption (leaving libc left') (argv.length + 1) s' ret).map Prod.fst ↔
          ClearAlike (cmdDecides libc ret) s.2 s'.2) := by
    rintro ⟨c, e⟩ ⟨c', e'⟩ ret rfl
    exact cmd_alike
  have hstart : ((cnf, errno) : CmdCnf × Int).1 = ((cnf, errno') : CmdCnf × Int).1 := rfl
  have hagree := exec_agree_iff hstep hstart (getoptLong cmdOptstring glbOptions argv).1
  rw [CmdAlike, ← hagree, CmdSame, and_iff_right_iff_imp]
  intro h
  have hall := h (getoptLong cmdOptstring glbOptions argv).1.length
  rwa [List.take_length] at hall

theorem env_same_iff (argv : List CStr) (cnf : EnvCnf) :
    EnvSame libc left left' ⟨argv, cnf, errno⟩ ⟨argv, cnf, errno'⟩ ↔
      ∀ n, Along₂ (envStep (leaving libc left)) (envStep (leaving libc left')) (EnvAlike libc)
        ⟨argv, cnf, errno⟩ ⟨argv, cnf, errno'⟩ (List.replicate n ()) := by
  have hstart : (EnvLoop.mk argv cnf errno).seen = (EnvLoop.mk argv cnf errno').seen := rfl
  have hagree := fun n => exec_agree_iff (env_step_alike libc left left') hstart (List.replicate n ())
  constructor
  · intro hsame n
    refine (hagree n).mp fun k => ?_
    rw [List.take_replicate]
    exact hsame _
  · intro halike n
    have hall := (hagree n).mpr (halike n) n
    rwa [List.take_replicate, Nat.min_self] at hall

/-- Two runs of the option parsers that differ in `errno` come to the same exactly if
`errno` is clear in both or in neither wherever nothing else decides on a number. -/
theorem options_errno_iff (libc : Libc) (left left' : CStr → Option Int) (errno errno' : Int) :
    (∀ argv cnf, CmdSame libc left left' argv cnf errno errno' ↔ CmdAlike libc left left' argv cnf errno errno') ∧
      ∀ mem cnf opts, EnvParseSame libc left left' mem cnf opts errno errno' ↔
        EnvParseAlike libc left left' mem cnf opts errno errno' := by
  refine ⟨fun argv cnf => cmd_same_iff argv cnf, fun mem cnf opts => ?_⟩
  constructor
  · rintro ⟨_, hsame⟩ str hstr argv hargv
    exact (env_same_iff argv cnf).mp (hsame str hstr argv hargv)
  · intro halike
    have hsame : ∀ str ∈ opts, ∀ argv ∈ glbParseTokenString mem.calloc str '\x00',
        EnvSame libc left left' ⟨argv, cnf, errno⟩ ⟨argv, cnf, errno'⟩ :=
      fun str hstr argv hargv => (env_same_iff argv cnf).mpr (halike str hstr argv hargv)
    exact ⟨env_parse_same hsame, hsame⟩

/-- With `errno` left at 1 from before, a latency count of 5 is not accepted. -/
theorem latency_count_leftover :
    (cmdParseOptions noHosts [['-', 'L'], ['5']] (glbCnfInit ⟨500, id⟩ (.defaults .least)) 0).map
        (fun r => r.1.latFactor) = some 5 ∧
      cmdParseOptions noHosts [['-', 'L'], ['5']] (glbCnfInit ⟨500, id⟩ (.defaults .least)) 1 = none ∧
      (envParseOptions noHosts ⟨true, fun _ => true, true⟩ (.defaults .round) 0
        (some ['-', 'L', ' ', '5'])).map EnvCnf.latFactor = some 5 ∧
      envParseOptions noHosts ⟨true, fun _ => true, true⟩ (.defaults .round) 1
        (some ['-', 'L', ' ', '5']) = none := by
  decide +kernel

end runs

end Glb.Proofs.Leftover
