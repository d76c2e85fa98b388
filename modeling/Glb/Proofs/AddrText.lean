import Glb.Options
import Glb.Report
import Glb.Proofs.DstGrammar
import Mathlib.Data.List.DropRight

namespace Glb.Proofs.AddrText
open Lib Lib.CBuffer Lib.Printf DstGrammar

variable {libc : Libc} {real : CStr → Option ℚ} {ip : InAddr} {port : UInt16} {c : Char} {n : Nat} {s : CStr}

/-- The socket address of an IPv4 address and a port. -/
def sockAddr (ip : InAddr) (port : UInt16) : SockAddr := ⟨AF_INET, htons port, ip, 0⟩

def addrText (ip : InAddr) (port : UInt16) : CStr := ipText ip ++ ':' :: decimal 0 port.toNat

/-- A text without the blanks around it. -/
def trim (s : CStr) : CStr := (s.dropWhile (· = ' ')).rdropWhile (· = ' ')

theorem htons_htons (port : UInt16) : htons (htons port) = port := by
  unfold htons
  apply UInt16.eq_of_toBitVec_eq
  ext i hi
  simp only [UInt16.toBitVec_or, UInt16.toBitVec_shiftLeft, UInt16.toBitVec_ofNat, BitVec.ofNat_eq_ofNat,
    BitVec.reduceMod, BitVec.shiftLeft_eq', BitVec.toNat_ofNat, Nat.reducePow, Nat.reduceMod,
    UInt16.toBitVec_shiftRight, BitVec.ushiftRight_eq', BitVec.getElem_or, BitVec.getElem_shiftLeft,
    BitVec.getElem_ushiftRight, BitVec.getLsbD_or, BitVec.getLsbD_shiftLeft, Nat.add_sub_cancel_left,
    BitVec.getLsbD_ushiftRight]
  grind

section digits

theorem decimal_digits (n : Nat) : decimal 0 n = Nat.toDigits 10 n := by
  unfold decimal padLeft
  simp

theorem decimal_digit (hc : c ∈ decimal 0 (n : Int)) : c.isDigit = true := by
  rw [decimal_digits] at hc
  exact Nat.isDigit_of_mem_toDigits (by decide) (by decide) hc

theorem decimal_length {k : Nat} (hk : 0 < k) (hn : n < 10 ^ k) : (decimal 0 (n : Int)).length ≤ k := by
  rw [decimal_digits]
  exact (Nat.length_toDigits_le_iff (by decide) hk).mpr hn

theorem port_digits (port : UInt16) : PortText (decimal 0 port.toNat) port.toNat := by
  have hport := port.toNat_lt
  rw [decimal_digits]
  refine ⟨Nat.toDigits_ne_nil, fun c hc => ?_, Nat.ofDigitChars_ten_toDigits.symm, ?_⟩
  · exact Nat.isDigit_of_mem_toDigits (by decide) (by decide) hc
  · unfold dstPortMax
    omega

theorem byte_length (b : UInt8) : (decimal 0 (b.toNat : Int)).length ≤ 3 := by
  have hb := b.toNat_lt
  exact decimal_length (by decide) (by omega)

end digits

section texts

theorem ip_length (ip : InAddr) : (ipText ip).length ≤ 15 := by
  have h0 := byte_length ip.b0
  have h1 := byte_length ip.b1
  have h2 := byte_length ip.b2
  have h3 := byte_length ip.b3
  simp only [ipText, List.length_append, List.length_cons]
  omega

theorem port_length (port : UInt16) : (decimal 0 (port.toNat : Int)).length ≤ 5 := by
  have hport := port.toNat_lt
  exact decimal_length (by decide) (by omega)

/-- An address consists of digits and points. -/
theorem ip_chars (hc : c ∈ ipText ip) : c.isDigit = true ∨ c = '.' := by
  simp only [ipText, List.mem_append, List.mem_cons, or_assoc] at hc
  have hbyte : ∀ b : UInt8, c ∈ decimal 0 b.toNat → c.isDigit = true ∨ c = '.' := fun _ hc =>
    .inl (decimal_digit hc)
  rcases hc with hc | hc | hc | hc | hc | hc | hc
  · exact hbyte _ hc
  · exact .inr hc
  · exact hbyte _ hc
  · exact .inr hc
  · exact hbyte _ hc
  · exact .inr hc
  · exact hbyte _ hc

theorem text_chars (hc : c ∈ addrText ip port) : c.isDigit = true ∨ c = '.' ∨ c = ':' := by
  rcases List.mem_append.mp hc with hc | hc
  · exact (ip_chars hc).imp_right .inl
  · rcases List.mem_cons.mp hc with rfl | hc
    · exact .inr (.inr rfl)
    · exact .inl (decimal_digit hc)

/-- What a character of an address is not. -/
theorem text_char_ne {d : Char} (hd : d.isDigit = false) (hpoint : d ≠ '.') (hcolon : d ≠ ':') :
    d ∉ addrText ip port := by
  intro hc
  rcases text_chars hc with hc | hc | hc
  · rw [hd] at hc
    cases hc
  · exact hpoint hc
  · exact hcolon hc

theorem ip_host (ip : InAddr) : Host (ipText ip) := by
  constructor
  · intro hc
    rcases ip_chars hc with hc | hc <;> cases hc
  · exact Nat.le_trans (ip_length ip) (by decide)

theorem text_length (ip : InAddr) (port : UInt16) : (addrText ip port).length ≤ 21 := by
  have hip := ip_length ip
  have hport := port_length port
  simp only [addrText, List.length_append, List.length_cons]
  omega

/-- The string in the buffer is the address and the port, as a whole. -/
theorem to_str_text (ip : InAddr) (port : UInt16) :
    (glbSockaddrToStr (sockAddr ip port)).len = (addrText ip port).length ∧
      read (glbSockaddrToStr (sockAddr ip port)).buf = some (addrText ip port) := by
  have hlen := text_length ip port
  have hnul : '\x00' ∉ addrText ip port := text_char_ne (by decide) (by decide) (by decide)
  have htext : ipText (sockAddr ip port).sinAddr ++ ':' :: decimal 0 (glbSockaddrGetPort (sockAddr ip port)).toNat =
      addrText ip port := by
    rw [glbSockaddrGetPort, sockAddr, htons_htons, addrText]
  unfold glbSockaddrToStr append
  rw [htext]
  refine ⟨Nat.zero_add _, ?_⟩
  dsimp only
  rw [if_neg (by decide)]
  have hroom : room sockaddrStrSize 0 - 1 = 21 := rfl
  rw [hroom, List.take_of_length_le hlen]
  apply read_strcpy hnul
  apply strcpy_overlay
  rw [List.length_replicate]
  exact Nat.succ_le_succ hlen

/-- The aligned string is the address and the port between blanks, the colon at
position 15. -/
theorem to_astr_text (ip : InAddr) (port : UInt16) :
    glbSockaddrToAstr (sockAddr ip port) = List.replicate (15 - (ipText ip).length) ' ' ++ addrText ip port ++
      List.replicate (5 - (decimal 0 (port.toNat : Int)).length) ' ' := by
  have hport := port_length port
  have hplace : glbSockaddrToAstr (sockAddr ip port) =
      overlay (overlay (List.replicate 21 ' ') (15 - (ipText ip).length) (ipText ip)) 15
        (':' :: decimal 0 port.toNat) := by
    rw [glbSockaddrToAstr, glbSockaddrGetPort, sockAddr, htons_htons]
    rfl
  have hroom : 15 + (':' :: decimal 0 (port.toNat : Int)).length ≤ 21 := by
    rw [List.length_cons]
    omega
  rw [hplace, overlay_meet ' ' (ip_length ip) hroom, List.length_cons, addrText, List.append_assoc _ (ipText ip)]
  simp only [List.append_assoc, Nat.reduceSub, Nat.reduceSubDiff]

theorem drop_blanks (hs : ' ' ∉ s) (hne : s ≠ []) (k : Nat) (t : CStr) :
    (List.replicate k ' ' ++ s ++ t).dropWhile (· = ' ') = s ++ t := by
  have hblank : ∀ c ∈ List.replicate k ' ', decide (c = ' ') = true := by
    intro c hc
    simpa using List.eq_of_mem_replicate hc
  obtain ⟨c, s, rfl⟩ := List.exists_cons_of_ne_nil hne
  have hc : c ≠ ' ' := by
    rintro rfl
    exact hs List.mem_cons_self
  rw [List.append_assoc, List.dropWhile_append_of_pos hblank, List.cons_append,
    List.dropWhile_cons_of_neg (by simpa using hc)]

theorem trim_blanks (hs : ' ' ∉ s) (hne : s ≠ []) (k m : Nat) :
    trim (List.replicate k ' ' ++ s ++ List.replicate m ' ') = s := by
  have hback := drop_blanks (s := s.reverse) (by simpa using hs) (by simpa using hne) m []
  rw [List.append_nil, List.append_nil] at hback
  unfold trim List.rdropWhile
  rw [drop_blanks hs hne, List.reverse_append, List.reverse_replicate, hback, List.reverse_reverse]

end texts

section parsers

/-- `gethostbyname ()` takes a dotted quad for its four bytes. -/
def Quads (libc : Libc) : Prop := ∀ ip, (libc.gethostbyname (ipText ip)).1 = some ip

theorem text_dst (hl : libc.Standard real) (hq : Quads libc) (defaultPort : UInt16) (ip : InAddr) (port : UInt16) :
    glbDstParse libc (addrText ip port) defaultPort = .ok (⟨sockAddr ip port, 1⟩, 2) := by
  have hok := port_accepted defaultPort hl (ip_host ip) (port_digits port) (hq ip)
  rwa [UInt16.ofNat_toNat] at hok

theorem text_addr (hl : libc.Standard real) (hq : Quads libc) (defaultAddr : CStr) (errno : Int) (ip : InAddr)
    (port : UInt16) : (glbParseAddr libc (addrText ip port) defaultAddr errno).1 = some (sockAddr ip port) := by
  have hip := ip_host ip
  have htake : (addrText ip port).takeWhile (· ≠ ':') = ipText ip := (cut_field hip.1 _).1
  have hdrop : (addrText ip port).dropWhile (· ≠ ':') = ':' :: decimal 0 port.toNat := (cut_field hip.1 _).2
  have hp := port_digits port
  obtain ⟨hrest, hvalue⟩ := port_text_read (t := []) hl hp (by simp)
  rw [List.append_nil] at hrest hvalue
  have hmax : ¬ port.toNat > glbPortMax := Nat.not_lt.mpr hp.2.2.2
  have hfirst : glbParseAddr libc (addrText ip port) defaultAddr errno =
      parsePort libc (ipText ip) (decimal 0 port.toNat) errno := by
    unfold glbParseAddr
    rw [hdrop]
    dsimp only
    rw [htake]
    exact if_neg (Nat.not_lt.mpr hip.2)
  rw [hfirst]
  unfold parsePort glbSockaddrInit
  dsimp only
  rw [hrest, hvalue, if_neg (by simp [hmax]), hq ip, Option.map_some, UInt16.ofNat_toNat, sockAddr]

/-- Printing and parsing addresses are inverse. -/
theorem addr_text_inverse (hl : libc.Standard real) (hq : Quads libc) (ip : InAddr) (port : UInt16) :
    ∃ str, read (glbSockaddrToStr (sockAddr ip port)).buf = some str ∧
      (glbSockaddrToStr (sockAddr ip port)).len < sockaddrStrSize ∧
      (∀ defaultPort, ∃ dst, glbDstParse libc str defaultPort = .ok (dst, 2) ∧ dst.weight = 1 ∧
        glbSockaddrIsEqual dst.addr (sockAddr ip port) = true) ∧
      (∀ defaultAddr errno, ∃ addr, (glbParseAddr libc str defaultAddr errno).1 = some addr ∧
        glbSockaddrIsEqual addr (sockAddr ip port) = true) ∧
      (glbSockaddrToAstr (sockAddr ip port)).length = 21 ∧
      (glbSockaddrToAstr (sockAddr ip port))[15]? = some ':' ∧
      trim (glbSockaddrToAstr (sockAddr ip port)) = str := by
  obtain ⟨hlen, hread⟩ := to_str_text ip port
  have hself : glbSockaddrIsEqual (sockAddr ip port) (sockAddr ip port) = true := by simp [glbSockaddrIsEqual]
  refine ⟨addrText ip port, hread, ?_, ?_, ?_, ?_, ?_, ?_⟩
  · rw [hlen]
    exact Nat.lt_succ_of_le (text_length ip port)
  · intro defaultPort
    exact ⟨_, text_dst hl hq defaultPort ip port, rfl, hself⟩
  · intro defaultAddr errno
    exact ⟨_, text_addr hl hq defaultAddr errno ip port, hself⟩
  · rw [glbSockaddrToAstr, length_overlay, length_overlay, List.length_replicate]
  · have hip := ip_length ip
    rw [to_astr_text, addrText, List.append_assoc, List.append_assoc, ← List.append_assoc,
      List.getElem?_append_right (by simp; omega)]
    have hpos : 15 - (List.replicate (15 - (ipText ip).length) ' ' ++ ipText ip).length = 0 := by
      rw [List.length_append, List.length_replicate]
      omega
    rw [hpos]
    rfl
  · rw [to_astr_text]
    have hblank : ' ' ∉ addrText ip port := text_char_ne (by decide) (by decide) (by decide)
    exact trim_blanks hblank (by simp [addrText]) _ _

/-- The four bytes of a dotted quad. -/
def quadBytes (s : CStr) : Option InAddr :=
  match (s.splitOnP (· = '.')).map fun t => UInt8.ofNat (Nat.ofDigitChars 10 t 0) with
  | [a, b, c, d] => some ⟨a, b, c, d⟩
  | _ => none

theorem byte_value (b : UInt8) : UInt8.ofNat (Nat.ofDigitChars 10 (decimal 0 b.toNat) 0) = b := by
  rw [decimal_digits, Nat.ofDigitChars_ten_toDigits, UInt8.ofNat_toNat]

def quadHosts : Libc := .sample Strto.realNumber quadBytes

theorem quad_hosts_quads : Quads quadHosts := by
  intro ip
  have hplain : ∀ b : UInt8, ∀ c ∈ decimal 0 b.toNat, decide (c = '.') = false := by
    intro b c hc
    have hdigit := decimal_digit hc
    rw [decide_eq_false_iff_not]
    rintro rfl
    cases hdigit
  have hfields : (ipText ip).splitOnP (· = '.') = [decimal 0 ip.b0.toNat, decimal 0 ip.b1.toNat,
      decimal 0 ip.b2.toNat, decimal 0 ip.b3.toNat] := by
    unfold ipText
    dsimp only
    rw [List.splitOnP_append_cons _ _ (by decide), List.splitOnP_append_cons _ _ (by decide),
      List.splitOnP_append_cons _ _ (by decide), List.splitOnP_eq_singleton (hplain _),
      List.splitOnP_eq_singleton (hplain _), List.splitOnP_eq_singleton (hplain _),
      List.splitOnP_eq_singleton (hplain _)]
    rfl
  rw [quadHosts, sample_host, quadBytes, hfields]
  simp only [List.map_cons, List.map_nil, byte_value]

theorem addr_text_loopback :
    quadHosts.Standard Strto.realNumber ∧ Quads quadHosts ∧
      ∃ str, read (glbSockaddrToStr (sockAddr ⟨127, 0, 0, 1⟩ 8010)).buf = some str ∧
        ∃ dst, glbDstParse quadHosts str 80 = .ok (dst, 2) ∧
          glbSockaddrIsEqual dst.addr (sockAddr ⟨127, 0, 0, 1⟩ 8010) = true := by
  obtain ⟨str, hread, _, hdst, _⟩ := addr_text_inverse (sample_standard _ _) quad_hosts_quads ⟨127, 0, 0, 1⟩ 8010
  obtain ⟨dst, hok, _, heq⟩ := hdst 80
  exact ⟨sample_standard _ _, quad_hosts_quads, str, hread, dst, hok, heq⟩

end parsers

end Glb.Proofs.AddrText
