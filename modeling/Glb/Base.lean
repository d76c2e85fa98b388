import Mathlib.Data.Rat.Defs
import Mathlib.Algebra.Order.Ring.Rat

namespace Glb

/-- The four bytes of `sin_addr`, in memory order. -/
structure InAddr where
  b0 : UInt8
  b1 : UInt8
  b2 : UInt8
  b3 : UInt8
  deriving DecidableEq, Repr

/-- `glb_sockaddr_t`, that is `struct sockaddr_in`. The padding is a field here
because addresses are compared as raw memory. -/
structure SockAddr where
  sinFamily : UInt16
  sinPort : UInt16
  sinAddr : InAddr
  sinZero : UInt64
  deriving DecidableEq, Repr

/-- `memcmp` over the whole structure. -/
def glbSockaddrIsEqual (left right : SockAddr) : Bool := left = right

@[simp] theorem sockaddr_is_equal (a b : SockAddr) : glbSockaddrIsEqual a b = true ↔ a = b := by
  simp [glbSockaddrIsEqual]

def fnv32Seed : UInt32 := 2166136261
def fnv32Prime : UInt32 := 16777619

def rotl32 (x r : UInt32) : UInt32 := (x <<< r) ||| (x >>> (32 - r))

def fnv32aMix (buf : List UInt8) : UInt32 :=
  let ret := buf.foldl (fun ret byte => (ret ^^^ byte.toUInt32) * fnv32Prime) fnv32Seed
  let ret := ret * rotl32 ret 24
  ret ^^^ rotl32 ret 21

def glbSockaddrHash (addr : SockAddr) : UInt32 :=
  fnv32aMix [addr.sinAddr.b0, addr.sinAddr.b1, addr.sinAddr.b2, addr.sinAddr.b3]

/-- `glb_dst_t`, over what stands for a `double`. -/
structure GlbDst (α : Type) where
  addr : SockAddr
  weight : α
  deriving DecidableEq, Repr

/-- Doubles are exact rationals, but where a text is parsed for one. -/
abbrev Dst := GlbDst ℚ

def glbDstIsEqual (d1 d2 : Dst) : Bool := glbSockaddrIsEqual d1.addr d2.addr

/-- `glb_policy_t`, in the order of the enumeration. -/
inductive Policy where
  | least
  | round
  | single
  | random
  | source
  deriving DecidableEq, Repr

def Policy.toNat : Policy → Nat
  | .least => 0
  | .round => 1
  | .single => 2
  | .random => 3
  | .source => 4

/-- The fields of `glb_cnf_t` that the router, the pools, the watchdog and the
listener read at run time. Times are nanoseconds. -/
structure Cnf where
  policy : Policy
  top : Bool
  interval : Int
  extra : Int
  maxConn : Int
  synchronous : Bool
  discover : Bool
  latFactor : Int
  deriving DecidableEq, Repr

/-- `glb_time_approx_seconds`: a shift instead of a division by 10^9. -/
def glbTimeApproxSeconds (t : Int) : Int := t >>> (30 : Nat)

/- Linux errno values. -/
def EINTR : Int := 4
def EIO : Int := 5
def EAGAIN : Int := 11
def ENOMEM : Int := 12
def EBUSY : Int := 16
def EINVAL : Int := 22
def EPIPE : Int := 32
def ERANGE : Int := 34
def ENONET : Int := 64
def EPROTO : Int := 71
def EADDRNOTAVAIL : Int := 99
def ECONNRESET : Int := 104
def ENOBUFS : Int := 105
def ENOTCONN : Int := 107
def EHOSTDOWN : Int := 112
def EINPROGRESS : Int := 115

end Glb
