import Glb.Parse
import Glb.Lib.Getopt
import Glb.Lib.Run

namespace Glb
open Lib.Getopt Lib.Run

/-- The fields of `glb_cnf_t` that both programs have. -/
structure EnvCnf where
  incAddr : SockAddr
  ctrlAddr : SockAddr
  watchdog : Option CStr
  interval : Int
  extra : Int
  verbose : Bool
  discover : Bool
  top : Bool
  ctrlSet : Bool
  latFactor : Int
  policy : Policy
  dst : List Dst
  deriving DecidableEq

/-- `glb_cnf_t` as it is with `GLBD` defined. -/
structure CmdCnf extends EnvCnf where
  fifoName : Option CStr
  nThreads : Int
  maxConn : Int
  nodelay : Bool
  keepalive : Bool
  linger : Bool
  deferAccept : Bool
  daemonize : Bool
  synchronous : Bool
  deriving DecidableEq

/-- `glb_opt_t`, without `GLB_OPT_NOOPT`. -/
inductive Opt where
  | discover
  | keepalive
  | latencyCount
  | single
  | top
  | version
  | synchronous
  | deferAccept
  | roundRobin
  | control
  | daemon
  | fifo
  | help
  | interval
  | linger
  | maxConn
  | nodelay
  | random
  | srcTracking
  | nThreads
  | verbose
  | watchdog
  | extraPolls
  deriving DecidableEq, Repr

def Opt.val : Opt → Char
  | .discover => 'D'
  | .keepalive => 'K'
  | .latencyCount => 'L'
  | .single => 'S'
  | .top => 'T'
  | .version => 'V'
  | .synchronous => 'Y'
  | .deferAccept => 'a'
  | .roundRobin => 'b'
  | .control => 'c'
  | .daemon => 'd'
  | .fifo => 'f'
  | .help => 'h'
  | .interval => 'i'
  | .linger => 'l'
  | .maxConn => 'm'
  | .nodelay => 'n'
  | .random => 'r'
  | .srcTracking => 's'
  | .nThreads => 't'
  | .verbose => 'v'
  | .watchdog => 'w'
  | .extraPolls => 'x'

def Opt.all : List Opt :=
  [.discover, .keepalive, .latencyCount, .single, .top, .version, .synchronous, .deferAccept, .roundRobin,
    .control, .daemon, .fifo, .help, .interval, .linger, .maxConn, .nodelay, .random, .srcTracking, .nThreads,
    .verbose, .watchdog, .extraPolls]

def Opt.ofVal (c : Char) : Option Opt := Opt.all.find? (fun o => o.val = c)

def glbOptions : List LongOpt :=
  [⟨"discover".toList, false, 'D'⟩, ⟨"keepalive".toList, false, 'K'⟩, ⟨"latency".toList, true, 'L'⟩,
    ⟨"single".toList, false, 'S'⟩, ⟨"top".toList, false, 'T'⟩, ⟨"version".toList, false, 'V'⟩,
    ⟨"defer-accept".toList, false, 'a'⟩, ⟨"round".toList, false, 'b'⟩, ⟨"round-robin".toList, false, 'b'⟩,
    ⟨"rrb".toList, false, 'b'⟩, ⟨"control".toList, true, 'c'⟩, ⟨"daemon".toList, false, 'd'⟩,
    ⟨"fifo".toList, true, 'f'⟩, ⟨"help".toList, false, 'h'⟩, ⟨"interval".toList, true, 'i'⟩,
    ⟨"linger".toList, false, 'l'⟩, ⟨"max_conn".toList, true, 'm'⟩, ⟨"connections".toList, true, 'm'⟩,
    ⟨"nodelay".toList, false, 'n'⟩, ⟨"random".toList, false, 'r'⟩, ⟨"source".toList, false, 's'⟩,
    ⟨"src_tracking".toList, false, 's'⟩, ⟨"source_tracking".toList, false, 's'⟩,
    ⟨"threads".toList, true, 't'⟩, ⟨"verbose".toList, false, 'v'⟩, ⟨"watchdog".toList, true, 'w'⟩,
    ⟨"extra".toList, true, 'x'⟩]

/-- The option string that `cmd_parse_options` gives to `getopt_long`. It has no colon
behind `f`. -/
def cmdOptstring : List Char := "DKL:STVYabc:dfhi:lm:nt:rsvw:x:".toList

def cmdIncAddrDefault : CStr := "0.0.0.0".toList
def cmdCtrlAddrDefault : CStr := "127.0.0.1".toList
def envCtrlAddrDefault : CStr := "127.0.0.1".toList
def envBindAddrDefault : CStr := "127.0.0.1".toList
def defaultFifoName : CStr := "/tmp/glbd.fifo".toList
def defaultCheckInterval : Int := 1000000000

section values

/-- `errno` after a call. -/
def leaves (errn : Option Int) (errno : Int) : Int := errn.getD errno

/-- Whether a number stands alone in its text, and `errno` is clear behind it. -/
def Conv.clean (r : Conv α) (errno : Int) : Bool :=
  (match r.rest with
    | [] => true
    | c :: _ => isSpace c) && leaves r.errn errno = 0

/-- A `long` stored in an `int`. -/
def toInt (x : Int) : Int := x.bmod (2 ^ 32)

/-- Nanoseconds, the fraction cut off. -/
def glbTimeFromDouble (sec : ℚ) : Int := (sec * 1000000000).num.tdiv (sec * 1000000000).den

def glbIpLenMax : Nat := 256
def glbPortMax : Nat := 65535

/-- The end of `glb_parse_addr`, from the port on. -/
def parsePort (libc : Libc) (addrStr portStr : CStr) (errno : Int) : Option SockAddr × Int :=
  let port := libc.strtoul portStr
  let errno := leaves port.errn errno
  if port.rest ≠ [] ∨ port.value > glbPortMax then (none, errno)
  else
    let (addr, errn) := glbSockaddrInit libc addrStr (.ofNat port.value)
    (addr, leaves errn errno)

/-- `glb_parse_addr`, with `errno`. -/
def glbParseAddr (libc : Libc) (str defaultAddr : CStr) (errno : Int) : Option SockAddr × Int :=
  match str.dropWhile (· ≠ ':') with
  | [] => parsePort libc (defaultAddr.take glbIpLenMax) str errno
  | _ :: portStr =>
    let addrStr := str.takeWhile (· ≠ ':')
    if addrStr.length > glbIpLenMax then (none, errno) else parsePort libc addrStr portStr errno

/-- `glb_parse_dst_list`: the destinations for `out->dst`. -/
def glbParseDstList (libc : Libc) (realloc : Bool) (dstList : List CStr) (defaultPort : UInt16) :
    Option (List Dst) :=
  if realloc then
    dstList.mapM fun s =>
      match glbDstParse libc s defaultPort with
      | .ok (dst, ret) => if ret = 1 ∨ ret = 2 ∨ ret = 3 then some dst else none
      | .error _ => none
  else none

end values

/-- `glb_cnf_init`, as far as both programs have the fields. The policy is
`GLB_POLICY_LEAST` in `glbd` and `GLB_POLICY_ROUND` in `libglb`. -/
def EnvCnf.defaults (policy : Policy) : EnvCnf :=
  { incAddr := ⟨0, 0, ⟨0, 0, 0, 0⟩, 0⟩, ctrlAddr := ⟨0, 0, ⟨0, 0, 0, 0⟩, 0⟩, watchdog := none,
    interval := defaultCheckInterval, extra := 0, verbose := false, discover := false, top := false,
    ctrlSet := false, latFactor := 0, policy := policy, dst := [] }

section cmd

/-- `glb_get_conn_limit` and `glb_set_conn_limit`. -/
structure Limits where
  getConnLimit : Int
  setConnLimit : Int → Int

/-- `glb_cnf_init` of `glbd`, over the fields that both programs have. -/
def glbCnfInit (limits : Limits) (cnf : EnvCnf) : CmdCnf :=
  { cnf with
    fifoName := some defaultFifoName, nThreads := 1, maxConn := limits.getConnLimit, nodelay := true,
    keepalive := true, linger := false, deferAccept := false, daemonize := false, synchronous := false }

/-- The body of the loop of `cmd_parse_options`, with `errno`. It may exit. -/
def cmdOption (libc : Libc) (argc : Nat) (s : CmdCnf × Int) (ret : Ret) : Option (CmdCnf × Int) :=
  let (cnf, errno) := s
  match Opt.ofVal ret.opt, ret.optarg with
  | some .discover, _ => some ({ cnf with discover := true }, errno)
  | some .keepalive, _ => some ({ cnf with keepalive := false }, errno)
  | some .latencyCount, some optarg =>
    let r := libc.strtol optarg
    let cnf := { cnf with latFactor := toInt r.value }
    if !r.clean errno || cnf.latFactor < 0 then none else some (cnf, leaves r.errn errno)
  -- implies `GLB_OPT_TOP`
  | some .single, _ => some ({ cnf with policy := .single, top := true }, errno)
  | some .top, _ => some ({ cnf with top := true }, errno)
  | some .version, _ => if argc = 2 then none else some (cnf, errno)
  | some .synchronous, _ => some ({ cnf with synchronous := true }, errno)
  | some .deferAccept, _ => some ({ cnf with deferAccept := true }, errno)
  | some .roundRobin, _ => some ({ cnf with policy := .round }, errno)
  | some .control, some optarg =>
    match glbParseAddr libc optarg cmdCtrlAddrDefault errno with
    | (none, _) => none
    | (some addr, errno) => some ({ cnf with ctrlAddr := addr, ctrlSet := true }, errno)
  | some .daemon, _ => some ({ cnf with daemonize := true }, errno)
  | some .fifo, optarg => some ({ cnf with fifoName := optarg }, errno)
  | some .interval, some optarg =>
    let r := libc.strtod optarg
    let cnf := { cnf with interval := glbTimeFromDouble r.value }
    if !r.clean errno || cnf.interval ≤ 0 then none else some (cnf, leaves r.errn errno)
  | some .linger, _ => some ({ cnf with linger := true }, errno)
  | some .maxConn, some optarg =>
    let r := libc.strtol optarg
    if !r.clean errno then none else some ({ cnf with maxConn := toInt r.value }, leaves r.errn errno)
  | some .nodelay, _ => some ({ cnf with nodelay := false }, errno)
  | some .nThreads, some optarg =>
    let r := libc.strtol optarg
    if !r.clean errno then none else some ({ cnf with nThreads := toInt r.value }, leaves r.errn errno)
  | some .random, _ => some ({ cnf with policy := .random }, errno)
  | some .srcTracking, _ => some ({ cnf with policy := .source }, errno)
  | some .verbose, _ => some ({ cnf with verbose := true }, errno)
  | some .watchdog, optarg => some ({ cnf with watchdog := optarg }, errno)
  | some .extraPolls, some optarg =>
    let r := libc.strtod optarg
    let cnf := { cnf with extra := glbTimeFromDouble r.value }
    if !r.clean errno || cnf.extra < 0 then none else some (cnf, leaves r.errn errno)
  -- help and unknown options; an argument that is required is never missing
  | _, _ => none

/-- `cmd_parse_options`, on what stands behind the program's name. -/
def cmdParseOptions (libc : Libc) (argv : List CStr) (cnf : CmdCnf) (errno : Int) : Option (CmdCnf × Int) :=
  exec (cmdOption libc (argv.length + 1)) (cnf, errno) (getoptLong cmdOptstring glbOptions argv).1

/-- What `glb_cmd_parse` does between the incoming address and the destinations. -/
def cmdAdjust (limits : Limits) (cnf : CmdCnf) : CmdCnf :=
  let cnf := if cnf.nThreads = 0 then { cnf with nThreads := 1 } else cnf
  let cnf :=
    if cnf.maxConn > limits.getConnLimit then
      let res := limits.setConnLimit cnf.maxConn
      if res > 0 then { cnf with maxConn := res } else cnf
    else cnf
  if cnf.daemonize then { cnf with verbose := false } else cnf

/-- `glb_cmd_parse` from the defaults `cnf`. It may exit or fail. -/
def glbCmdParse (libc : Libc) (limits : Limits) (realloc : Bool) (argv : List CStr) (cnf : CmdCnf) (errno : Int) :
    Option CmdCnf :=
  match cmdParseOptions libc argv cnf errno, (getoptLong cmdOptstring glbOptions argv).2 with
  | some (cnf, errno), listen :: dstList =>
    match (glbParseAddr libc listen cmdIncAddrDefault errno).1 with
    | none => none
    | some incAddr =>
      let cnf := cmdAdjust limits { cnf with incAddr := incAddr }
      (glbParseDstList libc realloc dstList (glbSockaddrGetPort incAddr)).map fun dst =>
        { cnf with dst := dst }
  | _, _ => none

end cmd

section env

/-- `env_option_is`, where `none` is `GLB_OPT_NOOPT`. -/
def envOptionIs (opt : CStr) : Option Opt :=
  match opt with
  | '-' :: '-' :: name => (glbOptions.find? (fun o => o.name = name)).bind fun o => Opt.ofVal o.val
  | '-' :: c :: _ => (glbOptions.find? (fun o => o.val = c)).bind fun o => Opt.ofVal o.val
  | _ => none

/-- The body of the loop of `env_parse_options`, with `errno` and the next token:
whether it has taken that one. -/
def envOption (libc : Libc) (cnf : EnvCnf) (errno : Int) (opt : Opt) (next : Option CStr) : EnvCnf × Int × Bool :=
  match opt, next with
  | .discover, _ => ({ cnf with discover := true }, errno, false)
  | .single, _ => ({ cnf with policy := .single, top := true }, errno, false)
  | .top, _ => ({ cnf with top := true }, errno, false)
  | .roundRobin, _ => ({ cnf with policy := .round }, errno, false)
  | .control, some value =>
    match glbParseAddr libc value envCtrlAddrDefault errno with
    | (some addr, errno) => ({ cnf with ctrlAddr := addr, ctrlSet := true }, errno, true)
    | (none, errno) => (cnf, errno, false)
  | .interval, some value =>
    let r := libc.strtod value
    let intvl := glbTimeFromDouble r.value
    if r.clean errno && intvl > 0 then ({ cnf with interval := intvl }, leaves r.errn errno, true)
    else (cnf, leaves r.errn errno, false)
  | .latencyCount, some value =>
    let r := libc.strtol value
    if r.clean errno && r.value ≥ 0 then ({ cnf with latFactor := toInt r.value }, leaves r.errn errno, true)
    else (cnf, leaves r.errn errno, false)
  | .random, _ => ({ cnf with policy := .random }, errno, false)
  | .srcTracking, _ => ({ cnf with policy := .source }, errno, false)
  | .verbose, _ => ({ cnf with verbose := true }, errno, false)
  | .extraPolls, some value =>
    let r := libc.strtod value
    let ext := glbTimeFromDouble r.value
    if r.clean errno && ext ≥ 0 then ({ cnf with extra := ext }, leaves r.errn errno, true)
    else (cnf, leaves r.errn errno, false)
  | _, _ => (cnf, errno, false)

/-- The loop of `env_parse_options`: the tokens are those from `end_opts` on. -/
def envOptions (libc : Libc) : List CStr → EnvCnf → Int → EnvCnf × Int × List CStr
  | [], cnf, errno => (cnf, errno, [])
  | t :: ts, cnf, errno =>
    match envOptionIs t with
    | none => (cnf, errno, t :: ts)
    | some opt =>
      match envOption libc cnf errno opt ts.head?, ts with
      | (cnf, errno, true), _ :: ts => envOptions libc ts cnf errno
      | (cnf, errno, _), ts => envOptions libc ts cnf errno

/-- The allocations that `env_parse_options` makes. -/
structure EnvMemory where
  strdup : Bool
  calloc : Nat → Bool
  realloc : Bool

/-- What `env_parse_options` does with the tokens behind the options. -/
def envOperands (libc : Libc) (realloc : Bool) (cnf : EnvCnf) (errno : Int) (ts : List CStr) : Option EnvCnf :=
  let (cnf, ts) :=
    match ts with
    | [] => (cnf, [])
    | t :: ts' =>
      match (glbParseAddr libc t envBindAddrDefault errno).1 with
      | some addr => ({ cnf with incAddr := addr }, ts')
      | none => (cnf, ts)
  if ts = [] then some cnf
  else (glbParseDstList libc realloc ts (glbSockaddrGetPort cnf.incAddr)).map fun dst => { cnf with dst := dst }

/-- `env_parse_options`. -/
def envParseOptions (libc : Libc) (mem : EnvMemory) (cnf : EnvCnf) (errno : Int) (opts : Option CStr) :
    Option EnvCnf :=
  match opts with
  | none => some cnf
  | some opts =>
    if mem.strdup then
      match glbParseTokenString mem.calloc opts '\x00' with
      | none => some cnf
      | some argv =>
        let (cnf, errno, ts) := envOptions libc argv cnf errno
        envOperands libc mem.realloc cnf errno ts
    else some cnf

def envParsePolicy (cnf : EnvCnf) (p : Option CStr) : EnvCnf :=
  match p with
  | none => cnf
  | some p =>
    if p = "single".toList then { cnf with policy := .single, top := true }
    else if p = "random".toList then { cnf with policy := .random }
    else if p = "source".toList then { cnf with policy := .source }
    else cnf

/-- `env_parse_control`. The default is set whether the variable is or not. -/
def envParseControl (libc : Libc) (errno : Int) (cnf : EnvCnf) (p : Option CStr) : EnvCnf :=
  let cnf := { cnf with ctrlSet := false }
  match p with
  | none => cnf
  | some p =>
    match (glbParseAddr libc p envCtrlAddrDefault errno).1 with
    | some addr => { cnf with ctrlAddr := addr, ctrlSet := true }
    | none => cnf

def envParseWatchdog (strdup : Bool) (cnf : EnvCnf) (p : Option CStr) : EnvCnf :=
  match p with
  | none => cnf
  | some p => { cnf with watchdog := if strdup then some p else none }

/-- The variables that `glb_env_parse` reads. -/
structure EnvVars where
  options : Option CStr
  bind : Option CStr
  targets : Option CStr
  policy : Option CStr
  control : Option CStr
  watchdog : Option CStr

/-- The allocations of `glb_env_parse`: the structure, then those for `GLB_OPTIONS`, for
`GLB_TARGETS` and for `GLB_WATCHDOG`. `errno` is the one it is entered with. Behind the
options only `glb_parse_addr` is handed it, whose address does not depend on it. -/
structure EnvCalls where
  malloc : Bool
  options : EnvMemory
  targets : EnvMemory
  strdup : Bool
  errno : Int

/-- The bind address, which has to be set one way or the other. -/
def envBind (libc : Libc) (errno : Int) (cnf : EnvCnf) (bind : Option CStr) : Option EnvCnf :=
  let cnf? : Option EnvCnf :=
    match bind with
    | some (c :: cs) =>
      (glbParseAddr libc (c :: cs) envBindAddrDefault errno).1.map fun addr => { cnf with incAddr := addr }
    | _ => some cnf
  cnf?.filter fun cnf => !glbSockaddrIsEqual cnf.incAddr ⟨0, 0, ⟨0, 0, 0, 0⟩, 0⟩

/-- The targets, of which there has to be one. -/
def envTargets (libc : Libc) (mem : EnvMemory) (cnf : EnvCnf) (targets : Option CStr) : Option EnvCnf :=
  let cnf? : Option EnvCnf :=
    match targets with
    | some (c :: cs) =>
      if mem.strdup then
        (glbParseTokenString mem.calloc (c :: cs) ',').bind fun dstList =>
          (glbParseDstList libc mem.realloc dstList (glbSockaddrGetPort cnf.incAddr)).map fun dst =>
            { cnf with dst := dst }
      else some cnf
    | _ => some cnf
  cnf?.filter fun cnf => cnf.dst ≠ []

/-- The three passes that end `glb_env_parse`. -/
def envOverride (libc : Libc) (calls : EnvCalls) (vars : EnvVars) (cnf : EnvCnf) : EnvCnf :=
  let cnf := envParsePolicy cnf vars.policy
  let cnf := envParseControl libc calls.errno cnf vars.control
  envParseWatchdog calls.strdup cnf vars.watchdog

/-- `glb_env_parse`, where no result is failure. -/
def glbEnvParse (libc : Libc) (calls : EnvCalls) (vars : EnvVars) : Option EnvCnf :=
  if calls.malloc then do
    let cnf ← envParseOptions libc calls.options (.defaults .round) calls.errno vars.options
    let cnf ← envBind libc calls.errno cnf vars.bind
    let cnf ← envTargets libc calls.targets cnf vars.targets
    some (envOverride libc calls vars cnf)
  else none

end env

end Glb
