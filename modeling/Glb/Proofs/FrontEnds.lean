import Glb.Options
import Glb.Standard
import Mathlib.Data.List.TakeWhile

namespace Glb.Proofs.FrontEnds
open Lib.Getopt Lib.Run

/-- The options that both programs support, those without a value first. -/
def sharedFlags : List Opt := [.discover, .single, .top, .roundRobin, .random, .srcTracking, .verbose]

def sharedValues : List Opt := [.control, .interval, .latencyCount, .extraPolls]

/-- The short form and the long ones. -/
def spellings (o : Opt) : List CStr :=
  ['-', o.val] :: (glbOptions.filter (fun x => x.val = o.val)).map (fun x => '-' :: '-' :: x.name)

/-- Options that both programs support, each value a token of its own and each latency
count an `int`. -/
inductive SharedOptions (libc : Libc) : List CStr → Prop
  | nil : SharedOptions libc []
  | flag (ho : o ∈ sharedFlags) (ht : t ∈ spellings o) (rest : SharedOptions libc ts) :
      SharedOptions libc (t :: ts)
  | value (ho : o ∈ sharedValues) (ht : t ∈ spellings o)
      (hint : o = .latencyCount → toInt (libc.strtol v).value = (libc.strtol v).value)
      (rest : SharedOptions libc ts) : SharedOptions libc (t :: v :: ts)

variable {libc : Libc} {limits : Limits} {cnf cnf' : CmdCnf} {errno errno' : Int} {argc : Nat} {o : Opt}
  {t v listen : CStr} {ts ops dsts : List CStr}

/-- `getopt_long` does not take the token for an option. -/
def operand (t : CStr) : Bool :=
  match t with
  | '-' :: _ :: _ => false
  | _ => true

section readings

theorem flag_read : ∀ o ∈ sharedFlags, ∀ t ∈ spellings o,
    readElement cmdOptstring glbOptions t = .opts [⟨o.val, none⟩] none ∧ envOptionIs t = some o := by
  decide +kernel

theorem value_read : ∀ o ∈ sharedValues, ∀ t ∈ spellings o,
    readElement cmdOptstring glbOptions t = .opts [] (some o.val) ∧ envOptionIs t = some o := by
  decide +kernel

theorem operand_read (h : operand t = true) :
    readElement cmdOptstring glbOptions t = .operand ∧ envOptionIs t = none := by
  unfold operand at h
  split at h
  · cases h
  · rename_i hne
    unfold readElement envOptionIs
    refine ⟨?_, ?_⟩
    · split
      · exact absurd rfl (hne _ _)
      · exact absurd rfl (hne _ _)
      · exact absurd rfl (hne _ _)
      · rfl
    · split
      · exact absurd rfl (hne _ _)
      · exact absurd rfl (hne _ _)
      · rfl

theorem of_val (o : Opt) : Opt.ofVal o.val = some o := by
  cases o <;> decide

end readings

section step

/-- The two programs make the same of an option without a value. -/
theorem flag_agrees (ho : o ∈ sharedFlags) (next : Option CStr)
    (h : cmdOption libc argc (cnf, errno) ⟨o.val, none⟩ = some (cnf', errno')) :
    envOption libc cnf.toEnvCnf errno o next = (cnf'.toEnvCnf, errno', false) ∧
      cnf'.daemonize = cnf.daemonize ∧ cnf'.dst = cnf.dst := by
  simp only [cmdOption, of_val] at h
  simp only [sharedFlags, List.mem_cons, List.not_mem_nil, or_false] at ho
  rcases ho with rfl | rfl | rfl | rfl | rfl | rfl | rfl <;>
    · obtain ⟨rfl, rfl⟩ := Prod.mk.inj (Option.some.inj h)
      exact ⟨rfl, rfl, rfl⟩

/-- And of an option with a value that `glbd` accepts. -/
theorem value_agrees (ho : o ∈ sharedValues)
    (hint : o = .latencyCount → toInt (libc.strtol v).value = (libc.strtol v).value)
    (h : cmdOption libc argc (cnf, errno) ⟨o.val, some v⟩ = some (cnf', errno')) :
    envOption libc cnf.toEnvCnf errno o (some v) = (cnf'.toEnvCnf, errno', true) ∧
      cnf'.daemonize = cnf.daemonize ∧ cnf'.dst = cnf.dst := by
  simp only [sharedValues, List.mem_cons, List.not_mem_nil, or_false] at ho
  rcases ho with rfl | rfl | rfl | rfl <;> simp only [cmdOption, of_val] at h <;> simp only [envOption]
  · have hd : envCtrlAddrDefault = cmdCtrlAddrDefault := rfl
    rw [hd]
    split at h
    · cases h
    · rename_i addr e haddr
      obtain ⟨rfl, rfl⟩ := Prod.mk.inj (Option.some.inj h)
      rw [haddr]
      exact ⟨rfl, rfl, rfl⟩
  · obtain ⟨hok, h⟩ := Option.ite_none_left_eq_some.mp h
    obtain ⟨rfl, rfl⟩ := Prod.mk.inj (Option.some.inj h)
    simp only [Bool.or_eq_true, Bool.not_eq_true', decide_eq_true_eq, not_or, Bool.not_eq_false, not_le] at hok
    simp [hok]
  · obtain ⟨hok, h⟩ := Option.ite_none_left_eq_some.mp h
    obtain ⟨rfl, rfl⟩ := Prod.mk.inj (Option.some.inj h)
    -- `glbd` checks the `int`, `libglb` the `long`
    simp only [Bool.or_eq_true, Bool.not_eq_true', decide_eq_true_eq, not_or, Bool.not_eq_false, not_lt] at hok
    rw [hint rfl] at hok
    simp [hok]
  · obtain ⟨hok, h⟩ := Option.ite_none_left_eq_some.mp h
    obtain ⟨rfl, rfl⟩ := Prod.mk.inj (Option.some.inj h)
    simp only [Bool.or_eq_true, Bool.not_eq_true', decide_eq_true_eq, not_or, Bool.not_eq_false, not_lt] at hok
    simp [hok]

end step

section tokens

theorem getopt_rest (hs : SharedOptions libc ts) (hops : ∀ t ∈ ops, operand t = true) :
    (getoptLong cmdOptstring glbOptions (ts ++ ops)).2 = ops := by
  induction hs with
  | nil => exact congrArg Prod.snd (getopt_operands fun t ht => (operand_read (hops t ht)).1)
  | flag ho ht _ ih => rwa [List.cons_append, getopt_flag (flag_read _ ho _ ht).1]
  | value ho ht _ _ ih =>
    rwa [List.cons_append, List.cons_append, getopt_value (value_read _ ho _ ht).1]

/-- The two loops consume the options in step. -/
theorem options_agree (hs : SharedOptions libc ts) (hops : ∀ t ∈ ops, operand t = true)
    (h : exec (cmdOption libc argc) (cnf, errno) (getoptLong cmdOptstring glbOptions (ts ++ ops)).1 =
      some (cnf', errno')) :
    envOptions libc (ts ++ ops) cnf.toEnvCnf errno = (cnf'.toEnvCnf, errno', ops) ∧
      cnf'.daemonize = cnf.daemonize ∧ cnf'.dst = cnf.dst := by
  induction hs generalizing cnf errno with
  | nil =>
    rw [List.nil_append, getopt_operands fun t ht => (operand_read (hops t ht)).1] at h
    obtain ⟨rfl, rfl⟩ := Prod.mk.inj (Option.some.inj h)
    refine ⟨?_, rfl, rfl⟩
    cases ops with
    | nil => rfl
    | cons t ops => simp [envOptions, (operand_read (hops t List.mem_cons_self)).2]
  | @flag o t ts ho ht _ ih =>
    obtain ⟨hread, his⟩ := flag_read _ ho _ ht
    rw [List.cons_append, getopt_flag hread, exec_cons] at h
    obtain ⟨⟨cnf₁, errno₁⟩, hone, h⟩ := Option.bind_eq_some_iff.mp h
    obtain ⟨henv, hdm, hdst⟩ := flag_agrees ho (ts ++ ops).head? hone
    obtain ⟨hrest, hdm', hdst'⟩ := ih h
    refine ⟨?_, hdm'.trans hdm, hdst'.trans hdst⟩
    rw [List.cons_append, envOptions, his]
    simp only [henv]
    exact hrest
  | @value o t v ts ho ht hint _ ih =>
    obtain ⟨hread, his⟩ := value_read _ ho _ ht
    rw [List.cons_append, List.cons_append, getopt_value hread, exec_cons] at h
    obtain ⟨⟨cnf₁, errno₁⟩, hone, h⟩ := Option.bind_eq_some_iff.mp h
    obtain ⟨henv, hdm, hdst⟩ := value_agrees ho hint hone
    obtain ⟨hrest, hdm', hdst'⟩ := ih h
    refine ⟨?_, hdm'.trans hdm, hdst'.trans hdst⟩
    rw [List.cons_append, List.cons_append, envOptions, his]
    simp only [List.head?_cons, henv]
    exact hrest

end tokens

section operands

theorem parse_port_errno (libc : Libc) (addrStr portStr : CStr) (errno errno' : Int) :
    (parsePort libc addrStr portStr errno).1 = (parsePort libc addrStr portStr errno').1 := by
  simp only [parsePort]
  split <;> rfl

/-- The address does not depend on `errno`, nor on the default when it has a host. -/
theorem parse_addr_explicit (hhost : ':' ∈ t) (libc : Libc) (addr addr' : CStr) (errno errno' : Int) :
    (glbParseAddr libc t addr errno).1 = (glbParseAddr libc t addr' errno').1 := by
  unfold glbParseAddr
  split
  · rename_i hnone
    have hall := List.dropWhile_eq_nil_iff.mp hnone ':' hhost
    simp at hall
  · simp only
    split
    · rfl
    · exact parse_port_errno _ _ _ _ _

theorem dst_parse_fields (h : glbDstParse libc t port = .ok (dst, n)) : n = 1 ∨ n = 2 ∨ n = 3 := by
  have hend : ∀ addrStr p weight ret, dstParseEnd libc addrStr p weight ret = .ok (dst, n) → n = ret := by
    intro addrStr p weight ret hok
    unfold dstParseEnd at hok
    split at hok
    · cases hok
    · exact (Prod.mk.inj (Except.ok.inj hok)).2.symm
  simp only [glbDstParse] at h
  split at h
  · cases h
  · split at h
    · exact Or.inl (hend _ _ _ _ h)
    · split at h
      · cases h
      · split at h
        · cases h
        · split at h
          · exact Or.inr (Or.inl (hend _ _ _ _ h))
          · split at h
            · cases h
            · exact Or.inr (Or.inr (hend _ _ _ _ h))

theorem parse_dst_list (h : ∀ s ∈ dsts, ∃ dst n, glbDstParse libc s port = .ok (dst, n)) :
    ∃ l, glbParseDstList libc true dsts port = some l := by
  unfold glbParseDstList
  simp only [↓reduceIte]
  induction dsts with
  | nil => exact ⟨[], rfl⟩
  | cons s dsts ih =>
    obtain ⟨dst, n, hs⟩ := h s List.mem_cons_self
    obtain ⟨l, hl⟩ := ih fun s' hs' => h s' (List.mem_cons_of_mem _ hs')
    refine ⟨dst :: l, ?_⟩
    simp [List.mapM_cons, hs, dst_parse_fields hs, hl]

theorem adjust_env (limits : Limits) (cnf : CmdCnf) (h : cnf.daemonize = false) :
    (cmdAdjust limits cnf).toEnvCnf = cnf.toEnvCnf := by
  unfold cmdAdjust
  have hthreads : ∀ c : CmdCnf, (if c.nThreads = 0 then { c with nThreads := 1 } else c).toEnvCnf = c.toEnvCnf ∧
      (if c.nThreads = 0 then { c with nThreads := 1 } else c).daemonize = c.daemonize := by
    intro c
    split <;> exact ⟨rfl, rfl⟩
  obtain ⟨he, hd⟩ := hthreads cnf
  generalize (if cnf.nThreads = 0 then { cnf with nThreads := 1 } else cnf) = c at he hd
  rw [h] at hd
  simp only
  split
  · split <;> simp [hd, he]
  · simp [hd, he]

theorem env_operands {cnf : EnvCnf} (hcnf : cnf.dst = [])
    (haddr : (glbParseAddr libc listen envBindAddrDefault errno).1 = some addr)
    (hl : glbParseDstList libc true dsts (glbSockaddrGetPort addr) = some l) :
    envOperands libc true cnf errno (listen :: dsts) = some { cnf with incAddr := addr, dst := l } := by
  simp only [envOperands, haddr]
  cases dsts with
  | nil =>
    obtain rfl : [] = l := by simpa [glbParseDstList] using hl
    simp [hcnf]
  | cons s dsts => simp [hl]

end operands

/-- Given the same tokens, `glbd` and `libglb` read the same configuration from them. -/
theorem front_ends_agree {cnf : EnvCnf} (hcnf : cnf.dst = []) (hopts : SharedOptions libc opts)
    (hlisten : ':' ∈ listen) (hops : ∀ t ∈ listen :: dsts, operand t = true)
    (hstr : glbParseTokenString (fun _ => true) str '\x00' = some (opts ++ listen :: dsts))
    (hacc : (cmdParseOptions libc (opts ++ listen :: dsts) (glbCnfInit limits cnf) 0).isSome)
    (haddr : (glbParseAddr libc listen cmdIncAddrDefault 0).1 = some addr)
    (hdst : ∀ s ∈ dsts, ∃ dst n, glbDstParse libc s (glbSockaddrGetPort addr) = .ok (dst, n)) :
    ∃ c, glbCmdParse libc limits true (opts ++ listen :: dsts) (glbCnfInit limits cnf) 0 = some c ∧
      envParseOptions libc ⟨true, fun _ => true, true⟩ cnf 0 (some str) = some c.toEnvCnf := by
  obtain ⟨⟨cnf', errno⟩, hcmd⟩ := Option.isSome_iff_exists.mp hacc
  obtain ⟨henv, hdm, hnone⟩ := options_agree hopts hops hcmd
  obtain ⟨l, hl⟩ := parse_dst_list hdst
  have hinc : (glbParseAddr libc listen cmdIncAddrDefault errno).1 = some addr :=
    (parse_addr_explicit hlisten libc _ _ _ _).trans haddr
  have hbind : (glbParseAddr libc listen envBindAddrDefault errno).1 = some addr :=
    (parse_addr_explicit hlisten libc _ _ _ _).trans haddr
  refine ⟨{ cmdAdjust limits { cnf' with incAddr := addr } with dst := l }, ?_, ?_⟩
  · simp [glbCmdParse, hcmd, getopt_rest hopts hops, hinc, hl]
  · have henv' : envOptions libc (opts ++ listen :: dsts) cnf 0 = (cnf'.toEnvCnf, errno, listen :: dsts) := henv
    simp only [envParseOptions, ↓reduceIte, hstr, henv']
    rw [env_operands (hnone.trans hcnf) hbind hl]
    have hadj := adjust_env limits { cnf' with incAddr := addr } hdm
    exact congrArg (fun c : EnvCnf => some { c with dst := l }) hadj.symm

def someLimits : Limits := ⟨500, id⟩

def someOptions : List CStr := ["-D", "--interval", "2", "-L", "3", "-c", "h:4567", "--rrb", "-S"].map cstr

def someDsts : List CStr := ["b", "c:1:5"].map cstr

theorem front_ends_agree_some_options :
    ∃ c, glbCmdParse letterHosts someLimits true (someOptions ++ cstr "a:80" :: someDsts)
        (glbCnfInit someLimits (.defaults .least)) 0 = some c ∧
      envParseOptions letterHosts ⟨true, fun _ => true, true⟩ (.defaults .least) 0
        (some (cstr "-D --interval 2 -L 3 -c h:4567 --rrb\t-S a:80 b c:1:5 ")) = some c.toEnvCnf := by
  have hopts : SharedOptions letterHosts someOptions :=
    .flag (o := .discover) (by decide) (by decide +kernel) <|
    .value (o := .interval) (by decide) (by decide +kernel) (by decide) <|
    .value (o := .latencyCount) (by decide) (by decide +kernel) (by decide +kernel) <|
    .value (o := .control) (by decide) (by decide +kernel) (by decide) <|
    .flag (o := .roundRobin) (by decide) (by decide +kernel) <|
    .flag (o := .single) (by decide) (by decide +kernel) .nil
  have hdst : ∀ s ∈ someDsts, ∃ dst n, glbDstParse letterHosts s 80 = .ok (dst, n) := by
    intro s hs
    have hok : ∀ s ∈ someDsts, (glbDstParse letterHosts s 80).isOk := by decide +kernel
    cases hp : glbDstParse letterHosts s 80 with
    | error e => simpa [hp, Except.isOk, Except.toBool] using hok s hs
    | ok r => exact ⟨r.1, r.2, rfl⟩
  exact front_ends_agree rfl hopts (by decide +kernel) (by decide +kernel) (by decide +kernel)
    (by decide +kernel) (show _ = some ⟨2, htons 80, ⟨10, 0, 0, 97⟩, 0⟩ by decide +kernel) hdst

end Glb.Proofs.FrontEnds
