import Glb.Base
import Mathlib.Algebra.Field.Rat

namespace Glb

/-- A C string without its terminator. -/
abbrev CStr := List Char

def cstr (s : String) : CStr := s.toList.takeWhile (· ≠ '\x00')

/-- What `strtol ()` and the like give: the number, the text from `endptr` on, and
`errno` if they set it. -/
structure Conv (α : Type) where
  value : α
  rest : CStr
  errn : Option Int

/-- The calls of the C library that the parsers make, over what stands for a `double`. -/
structure LibcOf (α : Type) where
  strtol : CStr → Conv Int
  strtoul : CStr → Conv Nat
  strtod : CStr → Conv α
  gethostbyname : CStr → Option InAddr × Option Int

abbrev Libc := LibcOf ℚ

/-- `isspace ()` in the C locale. -/
def isSpace (c : Char) : Bool :=
  c = ' ' || c = '\t' || c = '\n' || c = '\x0b' || c = '\x0c' || c = '\r'

section tokens

/-- The first loop of `glb_parse_token_string` behind `prev`: what it leaves in the
string and how many tokens end there. -/
def markTokens (sep : Char) : Char → CStr → CStr × Nat
  | prev, [] => ([], if prev ≠ '\x00' then 1 else 0)
  | prev, c :: cs =>
    let c := if isSpace c || sep = c then '\x00' else c
    let (buf, num) := markTokens sep c cs
    (c :: buf, if c = '\x00' ∧ prev ≠ '\x00' then num + 1 else num)

/-- The second loop: the strings at the places where a token begins. -/
def tokenStarts : Char → CStr → List CStr
  | _, [] => []
  | prev, c :: cs =>
    if prev = '\x00' ∧ c ≠ '\x00' then (c :: cs).takeWhile (· ≠ '\x00') :: tokenStarts c cs
    else tokenStarts c cs

/-- `glb_parse_token_string`, where `none` is the result `true`. Neither loop looks at
the first character, so it belongs to the first token whatever it is. -/
def glbParseTokenString (calloc : Nat → Bool) (tokStr : CStr) (sep : Char) : Option (List CStr) :=
  match tokStr with
  | [] => none
  | c :: cs =>
    let (buf, num) := markTokens sep c cs
    if calloc num then some ((c :: buf).takeWhile (· ≠ '\x00') :: tokenStarts c buf) else none

end tokens

section addresses
variable {α : Type}

def AF_INET : UInt16 := 2

/-- The two bytes of a port swapped, as little-endian machines do. -/
def htons (port : UInt16) : UInt16 := (port <<< 8) ||| (port >>> 8)

def glbSockaddrGetPort (addr : SockAddr) : UInt16 := htons addr.sinPort

/-- `glb_sockaddr_init`, with what it leaves in `errno`. -/
def glbSockaddrInit (libc : LibcOf α) (hostname : CStr) (port : UInt16) : Option SockAddr × Option Int :=
  let (host, errn) := libc.gethostbyname hostname
  (host.map (fun addr => ⟨AF_INET, htons port, addr, 0⟩), errn)

def dstSeparator : Char := ':'
def dstIpLenMax : Nat := 256
def dstPortMax : Nat := 65535
def dstDefaultWeight [One α] : α := 1

/-- The end of `glb_dst_parse`, where the host is looked up. -/
def dstParseEnd (libc : LibcOf α) (addrStr : CStr) (port : UInt16) (weight : α) (ret : Nat) :
    Except Int (GlbDst α × Nat) :=
  match (glbSockaddrInit libc addrStr port).1 with
  | none => .error (-EINVAL)
  | some addr => .ok (⟨addr, weight⟩, ret)

/-- `glb_dst_parse`: the destination and the number of fields. -/
def glbDstParse [One α] (libc : LibcOf α) (s : CStr) (defaultPort : UInt16) : Except Int (GlbDst α × Nat) :=
  let addrStr := s.takeWhile (· ≠ dstSeparator)
  if addrStr.length > dstIpLenMax then .error (-EINVAL)
  else
    match s.dropWhile (· ≠ dstSeparator) with
    | [] => dstParseEnd libc addrStr defaultPort dstDefaultWeight 1
    | _ :: token =>
      let port := libc.strtoul token
      if port.rest.head? ≠ some dstSeparator ∧ port.rest ≠ [] then .error (-EINVAL)
      else if port.value > dstPortMax then .error (-EINVAL)
      else
        match port.rest with
        | [] => dstParseEnd libc addrStr (.ofNat port.value) dstDefaultWeight 2
        | _ :: token =>
          let weight := libc.strtod token
          if weight.rest ≠ [] then .error (-EINVAL)
          else dstParseEnd libc addrStr (.ofNat port.value) weight.value 3

end addresses

/-- The tokens of a membership string, when there is memory for them. -/
def membList (membStr : String) : List CStr :=
  (glbParseTokenString (fun _ => true) (cstr membStr) ',').getD []

/-- The members that `wdog_process_membership_change` goes on with. -/
def wdogMembers (libc : Libc) (defaultPort : UInt16) (membStr : String) : List Dst :=
  (membList membStr).filterMap fun s =>
    match glbDstParse libc s defaultPort with
    | .error _ => none
    | .ok (dst, _) => some dst

end Glb
