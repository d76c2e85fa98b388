import Glb.Control
import Glb.Options

namespace Glb

/-- `struct rlimit` of `RLIMIT_NOFILE`. `rlim_t` has 64 bits. -/
structure Rlimit where
  cur : Nat
  max : Nat
  deriving DecidableEq, Repr

/-- Whether the two calls of `setrlimit ()` in `glb_set_conn_limit` succeed. -/
structure SetRlimit where
  first : Bool
  second : Bool
  deriving DecidableEq, Repr

/-- `5 + GLB_MAX_CTRL_CONN`. -/
def reservedFiles : Nat := 5 + ctrlMax

/-- An `int` converted to `rlim_t`. -/
def toRlim (x : Int) : Nat := (x % 2 ^ 64).toNat

/-- `glb_get_conn_limit`, where `getrlimit ()` gives `rlp`. The difference is one of
`rlim_t`. -/
def glbGetConnLimit (rlp : Rlimit) : Int :=
  toInt ((rlp.cur + 2 ^ 64 - reservedFiles) % 2 ^ 64 / 2 : Nat)

/-- The last limit that `glb_set_conn_limit` tries: the old maximum, as far as an `int`
holds it. -/
def raisedToMax (ok : SetRlimit) (rlp : Rlimit) : Rlimit :=
  if ok.second then ⟨toRlim (toInt rlp.max), toRlim (toInt rlp.max)⟩ else rlp

/-- `glb_set_conn_limit`, with the limit it leaves. -/
def glbSetConnLimit (ok : SetRlimit) (rlp : Rlimit) (val : Int) : Int × Rlimit :=
  let nofiles := toInt (val * 2 + reservedFiles)
  if toRlim nofiles ≤ rlp.cur then (val, rlp)
  else if ok.first then
    (val, ⟨toRlim nofiles, if rlp.max < toRlim nofiles then toRlim nofiles else rlp.max⟩)
  else (glbGetConnLimit (raisedToMax ok rlp), raisedToMax ok rlp)

/-- The two functions as `glb_cmd_parse` meets them. -/
def Rlimit.limits (ok : SetRlimit) (rlp : Rlimit) : Limits :=
  ⟨glbGetConnLimit rlp, fun val => (glbSetConnLimit ok rlp val).1⟩

/-- The limit that `glb_cmd_parse` leaves. -/
def cmdRlimit (ok : SetRlimit) (rlp : Rlimit) (maxConn : Int) : Rlimit :=
  if maxConn > glbGetConnLimit rlp then (glbSetConnLimit ok rlp maxConn).2 else rlp

end Glb
