import NuttxRtos.Lib.Segment

/-!
# Headers and addresses of 6LoWPAN packets

The IPv6 and UDP headers, link addresses, and the tests of `nuttx/net/ip.h`, `nuttx/net/sixlowpan.h`
and `sixlowpan_utils.c` that header compression makes. A 16-bit field is its value in host order,
so `HTONS` and `NTOHS` do not appear; its bytes are in network order.
-/

namespace NuttxRtos.Sixlowpan

open BitVec

abbrev Byte := BitVec 8

/-- The first `nv_addrlen` bytes of `nv_addr` of a `struct netdev_varaddr_s`. -/
abbrev VarAddr := List Byte

def word16 (hi lo : Byte) : BitVec 16 := hi ++ lo

/-- The two bytes of a 16-bit value in network order. -/
def bytes16 (value : BitVec 16) : List Byte := [value.extractLsb' 8 8, value.extractLsb' 0 8]

@[simp] theorem length_bytes16 (value : BitVec 16) : (bytes16 value).length = 2 := rfl

@[simp] theorem bytes16_word16 (hi lo : Byte) : bytes16 (word16 hi lo) = [hi, lo] := by
  unfold bytes16 word16
  rw [extractLsb'_append_eq_left, extractLsb'_append_eq_right]

theorem exists_word16 (value : BitVec 16) : ∃ hi lo, value = word16 hi lo := by
  refine ⟨value.extractLsb' 8 8, value.extractLsb' 0 8, ?_⟩
  unfold word16
  rw [extractLsb'_append_extractLsb'_eq_extractLsb' (by rfl)]
  simp

theorem bytes16_inj {value value' : BitVec 16} :
    bytes16 value = bytes16 value' ↔ value = value' := by
  refine ⟨fun same => ?_, fun same => same ▸ rfl⟩
  obtain ⟨hi, lo, rfl⟩ := exists_word16 value
  obtain ⟨hi', lo', rfl⟩ := exists_word16 value'
  rw [bytes16_word16, bytes16_word16, List.cons.injEq, List.cons.injEq] at same
  rw [same.1, same.2.1]

theorem word16_eq {hi lo : Byte} {value : BitVec 16} :
    word16 hi lo = value ↔ [hi, lo] = bytes16 value := by
  rw [← bytes16_inj, bytes16_word16]

theorem word16_and (hi lo : Byte) (mask : BitVec 16) :
    word16 hi lo &&& mask = word16 (hi &&& mask.extractLsb' 8 8) (lo &&& mask.extractLsb' 0 8) := by
  obtain ⟨hi', lo', rfl⟩ := exists_word16 mask
  unfold word16
  rw [extractLsb'_append_eq_left, extractLsb'_append_eq_right]
  exact and_append

theorem word16_xor (hi lo : Byte) (mask : BitVec 16) :
    word16 hi lo ^^^ mask = word16 (hi ^^^ mask.extractLsb' 8 8) (lo ^^^ mask.extractLsb' 0 8) := by
  obtain ⟨hi', lo', rfl⟩ := exists_word16 mask
  unfold word16
  rw [extractLsb'_append_eq_left, extractLsb'_append_eq_right]
  exact xor_append

structure Ipv6Addr where
  bytes : List Byte
  sized : bytes.length = 16

instance : DecidableEq Ipv6Addr := fun a b =>
  decidable_of_iff (a.bytes = b.bytes)
    ⟨fun same => by cases a; cases b; congr, fun same => same ▸ rfl⟩

def Ipv6Addr.word (a : Ipv6Addr) (i : ℕ) : BitVec 16 :=
  word16 (a.bytes.getD (2 * i) 0) (a.bytes.getD (2 * i + 1) 0)

structure Ipv6Hdr where
  vtc : Byte
  tcf : Byte
  flow : BitVec 16
  len : BitVec 16
  proto : Byte
  ttl : Byte
  srcipaddr : Ipv6Addr
  destipaddr : Ipv6Addr

structure UdpHdr where
  srcport : BitVec 16
  destport : BitVec 16
  udplen : BitVec 16
  udpchksum : BitVec 16

def ipv6Hdrlen : ℕ := 40

def udpHdrlen : ℕ := 8

def Ipv6Hdr.bytes (h : Ipv6Hdr) : List Byte :=
  [h.vtc, h.tcf] ++ bytes16 h.flow ++ bytes16 h.len ++ [h.proto, h.ttl] ++ h.srcipaddr.bytes ++
    h.destipaddr.bytes

def UdpHdr.bytes (udp : UdpHdr) : List Byte :=
  bytes16 udp.srcport ++ bytes16 udp.destport ++ bytes16 udp.udplen ++ bytes16 udp.udpchksum

def ipProtoTcp : Byte := 6

def ipProtoUdp : Byte := 17

def ipProtoIcmp6 : Byte := 58

/-! ## Tests on addresses -/

def netIsAddrUnspecified (a : Ipv6Addr) : Bool :=
  a.word 0 = 0 ∧ a.word 1 = 0 ∧ a.word 2 = 0 ∧ a.word 3 = 0 ∧
    a.word 4 = 0 ∧ a.word 5 = 0 ∧ a.word 6 = 0 ∧ a.word 7 = 0

def netIsAddrMcast (a : Ipv6Addr) : Bool := a.word 0 &&& 0xff00#16 = 0xff00#16

def netIsAddrLinklocal (a : Ipv6Addr) : Bool := a.word 0 = 0xfe80#16

def isIid16bitCompressable (a : Ipv6Addr) : Bool :=
  a.word 4 = 0 ∧ a.word 5 = 0x00ff#16 ∧ a.word 6 = 0xfe00#16

def isMcastaddrCompressable48 (a : Ipv6Addr) : Bool :=
  a.word 1 = 0 ∧ a.word 2 = 0 ∧ a.word 3 = 0 ∧ a.word 4 = 0 ∧ a.word 5 &&& 0xff00#16 = 0

def isMcastaddrCompressable32 (a : Ipv6Addr) : Bool :=
  a.word 1 = 0 ∧ a.word 2 = 0 ∧ a.word 3 = 0 ∧ a.word 4 = 0 ∧ a.word 5 = 0 ∧
    a.word 6 &&& 0xff00#16 = 0

def isMcastaddrCompressable8 (a : Ipv6Addr) : Bool :=
  a.word 0 &&& 0x00ff#16 = 0x0002#16 ∧ a.word 1 = 0 ∧ a.word 2 = 0 ∧ a.word 3 = 0 ∧ a.word 4 = 0 ∧
    a.word 5 = 0 ∧ a.word 6 = 0 ∧ a.word 7 &&& 0xff00#16 = 0

/-! ## Addresses made from link addresses -/

def macWord (mac : VarAddr) (i : ℕ) : BitVec 16 := word16 (mac.getD i 0) (mac.getD (i + 1) 0)

def sixlowpanIsbytebased (a : Ipv6Addr) (byte : Byte) : Bool :=
  a.word 5 = 0x00ff#16 ∧ a.word 6 = 0xfe00#16 ∧ a.word 7 = byte.setWidth 16

def sixlowpanIssaddrbased (a : Ipv6Addr) (saddr : VarAddr) : Bool :=
  a.word 5 = 0x00ff#16 ∧ a.word 6 = 0xfe00#16 ∧ a.word 7 = macWord saddr 0

def sixlowpanIseaddrbased (a : Ipv6Addr) (eaddr : VarAddr) : Bool :=
  if a.word 4 &&& 0x0200#16 = 0 then false
  else a.word 4 = macWord eaddr 0 ^^^ 0x0200#16 ∧ a.word 5 = macWord eaddr 2 ∧
    a.word 6 = macWord eaddr 4 ∧ a.word 7 = macWord eaddr 6

def sixlowpanIsmacbased (a : Ipv6Addr) (mac : VarAddr) : Bool :=
  match mac.length with
  | 1 => sixlowpanIsbytebased a (mac.getD 0 0)
  | 2 => sixlowpanIssaddrbased a mac
  | 8 => sixlowpanIseaddrbased a mac
  | _ => false

end NuttxRtos.Sixlowpan
