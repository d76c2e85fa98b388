import Mathlib.Data.List.Basic

namespace Lib.Getopt

/-- `struct option`, without optional arguments and flags. -/
structure LongOpt where
  name : List Char
  hasArg : Bool
  val : Char
  deriving DecidableEq, Repr

/-- What one call of `getopt_long` returns, with `optarg`. -/
structure Ret where
  opt : Char
  optarg : Option (List Char)
  deriving DecidableEq, Repr

/-- What an element of the argument vector is: options, the last of which may want
the next element for its argument, the `--` that ends them, or an operand. -/
inductive Element where
  | opts (rets : List Ret) (wants : Option Char)
  | stop
  | operand
  deriving DecidableEq, Repr

variable {shortopts : List Char} {longopts : List LongOpt} {ops ts : List (List Char)} {t v : List Char}

/-- Whether a letter is an option, and whether it takes an argument. -/
def shortArg : List Char → Char → Option Bool
  | [], _ => none
  | d :: ds, c => if c = d ∧ c ≠ ':' then some (ds.head? = some ':') else shortArg ds c

/-- A word of short options. -/
def readShort (shortopts : List Char) : List Char → List Ret × Option Char
  | [] => ([], none)
  | c :: cs =>
    match shortArg shortopts c with
    | some true => if cs = [] then ([], some c) else ([⟨c, some cs⟩], none)
    | some false => let (rets, wants) := readShort shortopts cs; (⟨c, none⟩ :: rets, wants)
    | none => let (rets, wants) := readShort shortopts cs; (⟨'?', none⟩ :: rets, wants)

/-- A long option is named in full or by a prefix that leaves no choice. -/
def longMatch (longopts : List LongOpt) (name : List Char) : Option LongOpt :=
  match longopts.find? (fun o => o.name = name) with
  | some o => some o
  | none =>
    match longopts.filter (fun o => name.isPrefixOf o.name) with
    | [] => none
    | o :: os => if os.all (fun o' => o'.hasArg = o.hasArg ∧ o'.val = o.val) then some o else none

def readLong (longopts : List LongOpt) (body : List Char) : List Ret × Option Char :=
  match longMatch longopts (body.takeWhile (· ≠ '=')) with
  | none => ([⟨'?', none⟩], none)
  | some o =>
    match body.dropWhile (· ≠ '=') with
    | [] => if o.hasArg then ([], some o.val) else ([⟨o.val, none⟩], none)
    | _ :: v => if o.hasArg then ([⟨o.val, some v⟩], none) else ([⟨'?', none⟩], none)

def readElement (shortopts : List Char) (longopts : List LongOpt) (t : List Char) : Element :=
  match t with
  | ['-', '-'] => .stop
  | '-' :: '-' :: body => let (rets, wants) := readLong longopts body; .opts rets wants
  | '-' :: c :: cs => let (rets, wants) := readShort shortopts (c :: cs); .opts rets wants
  | _ => .operand

/-- `getopt_long` called until it returns -1, on the elements behind the program's
name: what it returns, and the operands, which it moves behind the options. -/
def getoptLong (shortopts : List Char) (longopts : List LongOpt) :
    List (List Char) → List Ret × List (List Char)
  | [] => ([], [])
  | t :: ts =>
    match readElement shortopts longopts t with
    | .stop => ([], ts)
    | .operand => let (rets, ops) := getoptLong shortopts longopts ts; (rets, t :: ops)
    | .opts now none => let (rets, ops) := getoptLong shortopts longopts ts; (now ++ rets, ops)
    | .opts now (some c) =>
      match ts with
      | [] => (now ++ [⟨'?', none⟩], [])
      | v :: ts => let (rets, ops) := getoptLong shortopts longopts ts; (now ++ ⟨c, some v⟩ :: rets, ops)

theorem getopt_operands (h : ∀ t ∈ ops, readElement shortopts longopts t = .operand) :
    getoptLong shortopts longopts ops = ([], ops) := by
  induction ops with
  | nil => rfl
  | cons t ops ih =>
    rw [getoptLong, h t List.mem_cons_self, ih fun t' ht => h t' (List.mem_cons_of_mem _ ht)]

theorem getopt_flag (h : readElement shortopts longopts t = .opts [r] none) :
    getoptLong shortopts longopts (t :: ts) =
      (r :: (getoptLong shortopts longopts ts).1, (getoptLong shortopts longopts ts).2) := by
  rw [getoptLong, h]
  rfl

theorem getopt_value (h : readElement shortopts longopts t = .opts [] (some c)) :
    getoptLong shortopts longopts (t :: v :: ts) =
      (⟨c, some v⟩ :: (getoptLong shortopts longopts ts).1, (getoptLong shortopts longopts ts).2) := by
  rw [getoptLong, h]
  rfl

end Lib.Getopt
