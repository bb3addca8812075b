import Mathlib.Data.List.Basic
import NuttxRtos.Sixlowpan.Hc06

/-!
# The fields of an IPHC header

What the decompressor makes of each field that the compressor wrote.
-/

namespace NuttxRtos.Sixlowpan

open Segment List

/-! ## Addresses byte by byte -/

theorem Ipv6Addr.exists_bytes (a : Ipv6Addr) : ∃ b : ℕ → Byte, a.bytes =
    [b 0, b 1, b 2, b 3, b 4, b 5, b 6, b 7, b 8, b 9, b 10, b 11, b 12, b 13, b 14, b 15] := by
  obtain ⟨bytes, sized⟩ := a
  refine ⟨fun i => bytes.getD i 0, ?_⟩
  match bytes, sized with
  | [_, _, _, _, _, _, _, _, _, _, _, _, _, _, _, _], _ => rfl

theorem exists_eight {l : List Byte} (sized : l.length = 8) :
    ∃ b : ℕ → Byte, l = [b 0, b 1, b 2, b 3, b 4, b 5, b 6, b 7] := by
  refine ⟨fun i => l.getD i 0, ?_⟩
  match l, sized with
  | [_, _, _, _, _, _, _, _], _ => rfl

/-- Link addresses have 1, 2 or 8 bytes. -/
def Sized (mac : VarAddr) : Prop := mac.length = 1 ∨ mac.length = 2 ∨ mac.length = 8

theorem bytes16_setWidth (m : Byte) : bytes16 (m.setWidth 16) = [0, m] := by
  revert m
  decide

/-! ## The tables of `uncompress_addr` -/

section Tables

variable {mac : VarAddr} {frame : ℕ → Byte} {ptr : ℕ}

/-- The link-local prefix with the zeros behind it. -/
def llprefix64 : List Byte := [0xfe#8, 0x80#8, 0, 0, 0, 0, 0, 0]

/-- Link-local addresses are those of a context with the link-local prefix. -/
theorem uncompressAddr_ll (sized : Sized mac) {mode : ℕ} (known : mode = 1 ∨ mode = 2 ∨ mode = 3) :
    uncompressAddr mac llprefix (uncLlconf.getD mode 0) frame ptr =
      uncompressAddr mac llprefix64 (uncCtxconf.getD mode 0) frame ptr := by
  obtain rfl | rfl | rfl := known
  · simp [uncompressAddr, put, range_succ, uncLlconf, uncCtxconf, llprefix, llprefix64]
  · simp [uncompressAddr, put, range_succ, uncLlconf, uncCtxconf, llprefix, llprefix64]
  rcases sized with one | two | eight
  · simp [uncompressAddr, put, uncLlconf, uncCtxconf, llprefix, llprefix64, one]
  · simp [uncompressAddr, put, range_succ, uncLlconf, uncCtxconf, llprefix, llprefix64, two]
  · simp [uncompressAddr, put, range_succ, uncLlconf, uncCtxconf, llprefix, llprefix64, eight]

variable {a : Ipv6Addr}

theorem uncompressAddr_full {pfx : List Byte} (inline : At frame ptr a.bytes) :
    uncompressAddr mac pfx 0x000f#16 frame ptr = (a.bytes, ptr + 16) ∧
      uncompressAddr mac pfx 0x020f#16 frame ptr = (a.bytes, ptr + 16) := by
  obtain ⟨b, bytes⟩ := a.exists_bytes
  rw [bytes] at inline ⊢
  simp only [at_cons, Nat.add_assoc, Nat.reduceAdd] at inline
  constructor <;> simp [uncompressAddr, put, range_succ, inline]

theorem uncompressAddr_unspecified (unspecified : netIsAddrUnspecified a) :
    uncompressAddr mac [] 0x0000#16 frame ptr = (a.bytes, ptr) := by
  obtain ⟨b, bytes⟩ := a.exists_bytes
  simp only [netIsAddrUnspecified, Ipv6Addr.word, bytes, word16_eq,
    decide_eq_true_eq] at unspecified
  simp [bytes16] at unspecified
  simp [uncompressAddr, bytes, unspecified]

theorem and_ff (b : Byte) : b &&& 0xff#8 = b := BitVec.and_allOnes

theorem uncompressAddr_mcast (mac : VarAddr) (mcast : netIsAddrMcast a) :
    (isMcastaddrCompressable8 a → At frame ptr (a.bytes.drop 15) →
      uncompressAddr mac [0xff#8, 0x02#8] 0x0221#16 frame ptr = (a.bytes, ptr + 1)) ∧
    (isMcastaddrCompressable32 a → At frame ptr (a.bytes.getD 1 0 :: a.bytes.drop 13) →
      uncompressAddr mac [0xff#8, frame ptr] 0x0223#16 frame (ptr + 1) = (a.bytes, ptr + 4)) ∧
    (isMcastaddrCompressable48 a → At frame ptr (a.bytes.getD 1 0 :: a.bytes.drop 11) →
      uncompressAddr mac [0xff#8, frame ptr] 0x0225#16 frame (ptr + 1) = (a.bytes, ptr + 6)) := by
  obtain ⟨b, bytes⟩ := a.exists_bytes
  simp only [netIsAddrMcast, isMcastaddrCompressable8, isMcastaddrCompressable32,
    isMcastaddrCompressable48, Ipv6Addr.word, bytes, word16_and, word16_eq,
    decide_eq_true_eq] at mcast ⊢
  simp [bytes16, and_ff] at mcast
  refine ⟨?_, ?_, ?_⟩
  all_goals
    intro short inline
    simp [bytes16, and_ff] at short
    simp [Nat.add_assoc] at inline
    simp [uncompressAddr, put, range_succ, mcast, short, inline, Nat.add_assoc]

end Tables

/-! ## Interface identifiers -/

/-- What an interface identifier becomes: when it is made from a link address of one or two bytes,
its first word is taken to be zero. -/
def decodedIid (a : Ipv6Addr) (mac : VarAddr) : List Byte :=
  if sixlowpanIsmacbased a mac ∧ mac.length ≠ 8 then [0, 0] ++ a.bytes.drop 10 else a.bytes.drop 8

/-- The way `compress_laddr` and `compress_tagaddr` choose. -/
def iidMode (a : Ipv6Addr) (mac : VarAddr) : ℕ :=
  if sixlowpanIsmacbased a mac then 3 else if isIid16bitCompressable a then 2 else 1

def iidInline (a : Ipv6Addr) (mac : VarAddr) : List Byte :=
  if sixlowpanIsmacbased a mac then [] else if isIid16bitCompressable a then a.bytes.drop 14
  else a.bytes.drop 8

theorem compressTagaddr_eq (a : Ipv6Addr) (mac : VarAddr) (bitpos : ℕ) :
    compressTagaddr a mac bitpos =
      ((BitVec.ofNat 8 (iidMode a mac)) <<< bitpos, iidInline a mac) := by
  unfold compressTagaddr compressIpaddr iidMode iidInline
  split
  · rfl
  · split <;> rfl

theorem compressLaddr_eq (a : Ipv6Addr) (mac : VarAddr) (bitpos : ℕ) :
    compressLaddr a mac bitpos = ((BitVec.ofNat 8 (iidMode a mac)) <<< bitpos, iidInline a mac) :=
  compressTagaddr_eq a mac bitpos

variable {a : Ipv6Addr}

variable {mac : VarAddr} {frame : ℕ → Byte} {ptr : ℕ}

theorem uncompressAddr_iid (sized : Sized mac) (inline : At frame ptr (iidInline a mac))
    {pfx : List Byte} (eight : pfx.length = 8) :
    uncompressAddr mac pfx (uncCtxconf.getD (iidMode a mac) 0) frame ptr =
      (pfx ++ decodedIid a mac, ptr + (iidInline a mac).length) := by
  obtain ⟨p, rfl⟩ := exists_eight eight
  obtain ⟨b, bytes⟩ := a.exists_bytes
  unfold iidInline at inline ⊢
  unfold iidMode decodedIid
  by_cases based : sixlowpanIsmacbased a mac = true
  · simp only [based, if_true, true_and]
    simp only [sixlowpanIsmacbased] at based
    rcases sized with one | two | eight
    · obtain ⟨m, rfl⟩ := length_eq_one_iff.mp one
      simp only [length_singleton, sixlowpanIsbytebased, Ipv6Addr.word, bytes, word16_eq,
        bytes16_setWidth, decide_eq_true_eq] at based
      simp [bytes16] at based
      simp [uncCtxconf, uncompressAddr, put, bytes, based]
    · obtain ⟨m, m', rfl⟩ := length_eq_two.mp two
      simp only [length_cons, length_nil, sixlowpanIssaddrbased, Ipv6Addr.word, macWord,
        bytes, word16_eq, bytes16_word16, decide_eq_true_eq] at based
      simp [bytes16] at based
      simp [uncCtxconf, uncompressAddr, put, range_succ, bytes, based]
    obtain ⟨m, rfl⟩ := exists_eight eight
    simp only [length_cons, length_nil, sixlowpanIseaddrbased, Ipv6Addr.word, macWord,
      bytes, word16_xor, word16_eq, bytes16_word16] at based
    simp at based
    simp [uncCtxconf, uncompressAddr, put, range_succ, bytes, based]
  by_cases iid : isIid16bitCompressable a = true
  · simp only [based, iid, bytes] at inline ⊢
    simp [isIid16bitCompressable, Ipv6Addr.word, bytes, word16_eq, bytes16] at iid
    simp at inline
    simp [uncCtxconf, uncompressAddr, put, range_succ, inline, iid]
  simp only [based, iid, bytes] at inline ⊢
  simp [Nat.add_assoc] at inline
  simp [uncCtxconf, uncompressAddr, put, range_succ, inline]

theorem iidMode_cases (a : Ipv6Addr) (mac : VarAddr) :
    iidMode a mac = 1 ∨ iidMode a mac = 2 ∨ iidMode a mac = 3 := by
  unfold iidMode
  split
  · exact .inr (.inr rfl)
  split
  · exact .inr (.inl rfl)
  · exact .inl rfl

@[elab_as_elim]
theorem iidMode_elim {motive : ℕ → Prop} (all : motive 1 ∧ motive 2 ∧ motive 3) :
    motive (iidMode a mac) := by
  rcases iidMode_cases a mac with mode | mode | mode <;> rw [mode]
  exacts [all.1, all.2.1, all.2.2]

theorem iidMode_toNat (a : Ipv6Addr) (mac : VarAddr) :
    (BitVec.ofNat 8 (iidMode a mac)).toNat = iidMode a mac :=
  iidMode_elim ⟨rfl, rfl, rfl⟩

theorem take_of_linklocalPrefix (linklocal : isLinklocalPrefix a) :
    a.bytes.take 8 = llprefix64 := by
  obtain ⟨b, bytes⟩ := a.exists_bytes
  simp [isLinklocalPrefix, netIsAddrLinklocal, Ipv6Addr.word, bytes, word16_eq,
    bytes16] at linklocal
  simp [bytes, llprefix64, linklocal]

theorem uncompressAddr_linklocal (sized : Sized mac) (linklocal : isLinklocalPrefix a)
    (inline : At frame ptr (iidInline a mac)) :
    uncompressAddr mac llprefix (uncLlconf.getD (iidMode a mac) 0) frame ptr =
      (a.bytes.take 8 ++ decodedIid a mac, ptr + (iidInline a mac).length) := by
  rw [uncompressAddr_ll sized (iidMode_cases a mac), ← take_of_linklocalPrefix linklocal,
    uncompressAddr_iid sized inline (by rw [length_take, a.sized]; rfl)]

/-! ## Source and destination addresses -/

/-- What an address becomes that is sent with a context, as link-local or in full. -/
def decodedAddr (contexts : List AddrContext) (context : Option AddrContext) (number : Byte)
    (a : Ipv6Addr) (mac : VarAddr) : Option (List Byte) :=
  match context with
  | some _ => (findAddrcontextByNumber contexts number).map fun c => c.pfx ++ decodedIid a mac
  | none => some (if isLinklocalPrefix a then a.bytes.take 8 ++ decodedIid a mac else a.bytes)

def decodedSrc (contexts : List AddrContext) (context : Option AddrContext) (iphc2 : Byte)
    (a : Ipv6Addr) (mac : VarAddr) : Option (List Byte) :=
  if netIsAddrUnspecified a then some a.bytes else decodedAddr contexts context (iphc2 >>> 4) a mac

def decodedDest (contexts : List AddrContext) (context : Option AddrContext) (iphc2 : Byte)
    (a : Ipv6Addr) (mac : VarAddr) : Option (List Byte) :=
  if netIsAddrMcast a then some a.bytes else decodedAddr contexts context (iphc2 &&& 0x0f#8) a mac

section Addresses

variable {contexts : List AddrContext} {context : Option AddrContext} {iphc1 iphc2 : Byte}
variable {a : Ipv6Addr} {mac : VarAddr} {frame : ℕ → Byte} {s : Hc06State}

theorem uncompressSrcipaddr_compress (sized : Sized mac)
    (sac : iphc1 &&& 0x40#8 = (compressSrcipaddr context mac a).1 &&& 0x40#8)
    (sam : iphc1 &&& 0x30#8 = (compressSrcipaddr context mac a).1 &&& 0x30#8)
    (cid : context.isSome → iphc1 &&& 0x80#8 ≠ 0)
    (inline : At frame s.hc06ptr (compressSrcipaddr context mac a).2.2) :
    uncompressSrcipaddr frame contexts mac iphc1 iphc2 s =
      (decodedSrc contexts context iphc2 a mac).map fun bytes =>
        { buf := write s.buf 8 bytes
          hc06ptr := s.hc06ptr + (compressSrcipaddr context mac a).2.2.length } := by
  unfold compressSrcipaddr at sac sam inline ⊢
  unfold decodedSrc decodedAddr uncompressSrcipaddr
  by_cases unspecified : netIsAddrUnspecified a = true
  · simp only [unspecified, if_true] at sac sam ⊢
    simp only [sac, sam]
    simp [uncCtxconf, Hc06State.putAddr, uncompressAddr_unspecified unspecified]
  simp only [unspecified, Bool.false_eq_true, if_false] at sac sam inline ⊢
  cases context with
  | some context =>
    simp only [compressLaddr_eq] at sac sam inline ⊢
    have bit : iphc1 &&& 0x40#8 ≠ 0 := sac ▸ iidMode_elim (by decide)
    have tag : ((iphc1 &&& 0x30#8) >>> 4) &&& 0x03#8 = BitVec.ofNat 8 (iidMode a mac) :=
      sam ▸ iidMode_elim (by decide)
    have nonzero : BitVec.ofNat 8 (iidMode a mac) ≠ 0 := iidMode_elim (by decide)
    rw [if_pos bit, if_pos (cid rfl), tag, if_pos nonzero, iidMode_toNat]
    cases findAddrcontextByNumber contexts (iphc2 >>> 4) with
    | none => rfl
    | some found =>
      simp only [Option.map_some, Hc06State.putAddr, uncompressAddr_iid sized inline found.sized]
  | none =>
    by_cases linklocal : isLinklocalPrefix a = true
    · simp only [linklocal, if_true, compressLaddr_eq] at sac sam inline ⊢
      have bit : iphc1 &&& 0x40#8 = 0 := sac ▸ iidMode_elim (by decide)
      have tag : ((iphc1 &&& 0x30#8) >>> 4) &&& 0x03#8 = BitVec.ofNat 8 (iidMode a mac) :=
        sam ▸ iidMode_elim (by decide)
      rw [if_neg (not_not.mpr bit), tag, iidMode_toNat,
        uncompressAddr_linklocal sized linklocal inline]
      rfl
    simp only [linklocal, Bool.false_eq_true, if_false] at sac sam inline ⊢
    simp only [sac, sam]
    simp [uncLlconf, Hc06State.putAddr, (uncompressAddr_full inline).1, a.sized]

theorem low_bits {c : Byte} (low : iphc1 &&& 0x0f#8 = c) : iphc1 &&& 0x08#8 = c &&& 0x08#8 ∧
    iphc1 &&& 0x04#8 = c &&& 0x04#8 ∧ iphc1 &&& 0x03#8 = c &&& 0x03#8 := by
  subst low
  simp only [BitVec.and_assoc]
  exact ⟨rfl, rfl, rfl⟩

theorem uncompressDestipaddr_compress (sized : Sized mac)
    (low : iphc1 &&& 0x0f#8 = (compressDestipaddr context mac a).1 &&& 0x0f#8)
    (cid : context.isSome → iphc1 &&& 0x80#8 ≠ 0)
    (inline : At frame s.hc06ptr (compressDestipaddr context mac a).2.2) :
    uncompressDestipaddr frame contexts mac iphc1 iphc2 s =
      (decodedDest contexts context iphc2 a mac).map fun bytes =>
        { buf := write s.buf 24 bytes
          hc06ptr := s.hc06ptr + (compressDestipaddr context mac a).2.2.length } := by
  obtain ⟨m_bit, dac_bit, dam⟩ := low_bits low
  unfold compressDestipaddr at m_bit dac_bit dam inline ⊢
  unfold decodedDest decodedAddr
  by_cases mcast : netIsAddrMcast a = true
  · simp only [mcast, if_true] at m_bit dac_bit dam inline ⊢
    split_ifs at m_bit dac_bit dam inline ⊢ with eight three five
    all_goals simp only [uncompressDestipaddr, m_bit, dac_bit, dam]
    · simp [uncMxconf, Hc06State.putAddr, (uncompressAddr_mcast mac mcast).1 eight inline, a.sized]
    · simp [uncMxconf, Hc06State.putAddr, (uncompressAddr_mcast mac mcast).2.1 three inline, a.sized]
    · simp [uncMxconf, Hc06State.putAddr, (uncompressAddr_mcast mac mcast).2.2 five inline, a.sized]
    · simp [uncMxconf, Hc06State.putAddr, (uncompressAddr_full inline).2, a.sized]
  simp only [mcast, Bool.false_eq_true, if_false] at m_bit dac_bit dam inline ⊢
  unfold uncompressDestipaddr
  cases context with
  | some context =>
    simp only [compressTagaddr_eq] at m_bit dac_bit dam inline ⊢
    have unicast : iphc1 &&& 0x08#8 = 0 := m_bit ▸ iidMode_elim (by decide)
    have bit : iphc1 &&& 0x04#8 ≠ 0 := dac_bit ▸ iidMode_elim (by decide)
    have tag : iphc1 &&& 0x03#8 = BitVec.ofNat 8 (iidMode a mac) := dam ▸ iidMode_elim (by decide)
    rw [if_neg (not_not.mpr unicast), if_pos bit, if_pos (cid rfl), tag, iidMode_toNat]
    cases findAddrcontextByNumber contexts (iphc2 &&& 0x0f#8) with
    | none => rfl
    | some found =>
      simp only [Option.map_some, Hc06State.putAddr, uncompressAddr_iid sized inline found.sized]
  | none =>
    by_cases linklocal : isLinklocalPrefix a = true
    · simp only [linklocal, if_true, compressTagaddr_eq] at m_bit dac_bit dam inline ⊢
      have unicast : iphc1 &&& 0x08#8 = 0 := m_bit ▸ iidMode_elim (by decide)
      have bit : iphc1 &&& 0x04#8 = 0 := dac_bit ▸ iidMode_elim (by decide)
      have tag : iphc1 &&& 0x03#8 = BitVec.ofNat 8 (iidMode a mac) :=
        dam ▸ iidMode_elim (by decide)
      rw [if_neg (not_not.mpr unicast), if_neg (not_not.mpr bit), tag, iidMode_toNat,
        uncompressAddr_linklocal sized linklocal inline]
      rfl
    simp only [linklocal, Bool.false_eq_true, if_false] at m_bit dac_bit dam inline ⊢
    simp only [m_bit, dac_bit, dam]
    simp [uncLlconf, Hc06State.putAddr, (uncompressAddr_full inline).1, a.sized]

end Addresses

/-! ## The other fields -/

section Fields

variable {frame : ℕ → Byte} {s : Hc06State} {iphc0 : Byte} {ipv6 : Ipv6Hdr}

/-- The traffic class in the order of IPHC, ECN first. -/
def ecnDscp (vtc tcf : Byte) : Byte :=
  let tmp := (vtc <<< 4) ||| (tcf >>> 4)
  ((tmp &&& 0x03#8) <<< 6) ||| (tmp >>> 2)

theorem ecnDscp_class (vtc tcf : Byte) :
    (ecnDscp vtc tcf >>> 2) &&& 0x0f#8 = ((vtc <<< 4) ||| (tcf >>> 4)) >>> 4 ∧
      ((ecnDscp vtc tcf >>> 2) &&& 0x30#8) ||| (ecnDscp vtc tcf <<< 6) =
        ((vtc <<< 4) ||| (tcf >>> 4)) <<< 4 := by
  unfold ecnDscp
  generalize (vtc <<< 4) ||| (tcf >>> 4) = tc
  revert tc
  decide

variable {vtc tcf : Byte}

theorem class_high (version : vtc &&& 0xf0#8 = 0x60#8) (tcf : Byte) :
    0x60#8 ||| ((vtc <<< 4) ||| (tcf >>> 4)) >>> 4 = vtc := by
  have gone : ∀ b : Byte, b >>> 4 >>> 4 = 0#8 := by decide
  have kept : ∀ b : Byte, b &&& 0xf0#8 = 0x60#8 → 0x60#8 ||| b <<< 4 >>> 4 = b := by decide
  rw [BitVec.ushiftRight_or_distrib, gone, BitVec.or_zero, kept vtc version]

theorem class_low (vtc tcf : Byte) :
    ((vtc <<< 4) ||| (tcf >>> 4)) <<< 4 ||| (tcf &&& 0x0f#8) = tcf := by
  have gone : ∀ b : Byte, b <<< 4 <<< 4 = 0#8 := by decide
  have kept : ∀ b : Byte, b >>> 4 <<< 4 ||| (b &&& 0x0f#8) = b := by decide
  rw [BitVec.shiftLeft_or_distrib, gone, BitVec.zero_or, kept]

theorem ecnDscp_noFlow (vtc : Byte) (noFlow : tcf &&& 0x0f#8 = 0) :
    ((ecnDscp vtc tcf <<< 6) &&& 0xc0#8) ||| ((ecnDscp vtc tcf >>> 2) &&& 0x30#8) =
      ((ecnDscp vtc tcf >>> 2) &&& 0x30#8) ||| (ecnDscp vtc tcf <<< 6) ||| (tcf &&& 0x0f#8) := by
  generalize ecnDscp vtc tcf = tc
  rw [noFlow]
  revert tc
  decide

theorem tcf_of_noTc (version : vtc &&& 0xf0#8 = 0x60#8) (noTc : vtc &&& 0x0f#8 = 0)
    (noTc' : tcf &&& 0xf0#8 = 0) : vtc = 0x60#8 ∧ ecnDscp vtc tcf = 0#8 ∧ tcf &&& 0x0f#8 = tcf := by
  have plain : vtc = 0x60#8 := by
    revert vtc
    decide
  subst plain
  revert tcf
  decide

theorem compressTc_eq (ipv6 : Ipv6Hdr) :
    compressTc ipv6 =
      if ipv6.tcf &&& 0x0f#8 = 0 ∧ ipv6.flow = 0 then
        if ipv6.vtc &&& 0x0f#8 = 0 ∧ ipv6.tcf &&& 0xf0#8 = 0 then (0x18#8, [])
        else (0x10#8, [ecnDscp ipv6.vtc ipv6.tcf])
      else if ipv6.vtc &&& 0x0f#8 = 0 ∧ ipv6.tcf &&& 0xf0#8 = 0 then
        (0x08#8, ((ecnDscp ipv6.vtc ipv6.tcf &&& 0xc0#8) ||| (ipv6.tcf &&& 0x0f#8)) ::
          bytes16 ipv6.flow)
      else (0x00#8, ecnDscp ipv6.vtc ipv6.tcf :: ipv6.tcf :: bytes16 ipv6.flow) :=
  rfl

theorem uncompressTc_compress (version : ipv6.vtc &&& 0xf0#8 = 0x60#8)
    (tc : iphc0 &&& 0x18#8 = (compressTc ipv6).1 &&& 0x18#8)
    (inline : At frame s.hc06ptr (compressTc ipv6).2) :
    uncompressTc frame iphc0 s =
      { buf := write s.buf 0 ([ipv6.vtc, ipv6.tcf] ++ bytes16 ipv6.flow)
        hc06ptr := s.hc06ptr + (compressTc ipv6).2.length } := by
  have bit : iphc0 &&& 0x10#8 = (compressTc ipv6).1 &&& 0x18#8 &&& 0x10#8 := by
    rw [← tc, BitVec.and_assoc]
    rfl
  have bit' : iphc0 &&& 0x08#8 = (compressTc ipv6).1 &&& 0x18#8 &&& 0x08#8 := by
    rw [← tc, BitVec.and_assoc]
    rfl
  obtain ⟨high, low⟩ := ecnDscp_class ipv6.vtc ipv6.tcf
  have vtc_kept := (congrArg (0x60#8 ||| ·) high).trans (class_high version ipv6.tcf)
  have tcf_kept := (congrArg (· ||| (ipv6.tcf &&& 0x0f#8)) low).trans (class_low ipv6.vtc ipv6.tcf)
  obtain ⟨hi, lo, flow⟩ := exists_word16 ipv6.flow
  rw [compressTc_eq] at bit bit' inline ⊢
  unfold uncompressTc
  by_cases noFlow : ipv6.tcf &&& 0x0f#8 = 0 ∧ ipv6.flow = 0
  · rw [if_pos noFlow] at bit bit' inline ⊢
    rw [noFlow.2]
    by_cases noTc : ipv6.vtc &&& 0x0f#8 = 0 ∧ ipv6.tcf &&& 0xf0#8 = 0
    · obtain ⟨plain, -, low⟩ := tcf_of_noTc version noTc.1 noTc.2
      rw [if_pos noTc] at bit bit' ⊢
      rw [if_neg (by rw [bit]; decide), if_neg (by rw [bit']; decide), plain, ← low, noFlow.1]
      rfl
    rw [if_neg noTc] at bit bit' inline ⊢
    simp only [BitVec.reduceAnd] at bit bit'
    rw [if_neg (by rw [bit]; decide), if_pos (by rw [bit']; rfl), ((at_cons _ _ _ _).mp inline).1]
    simp only [ecnDscp_noFlow _ noFlow.1, vtc_kept, tcf_kept]
    rfl
  rw [if_neg noFlow] at bit bit' inline ⊢
  by_cases noTc : ipv6.vtc &&& 0x0f#8 = 0 ∧ ipv6.tcf &&& 0xf0#8 = 0
  · obtain ⟨plain, none, low⟩ := tcf_of_noTc version noTc.1 noTc.2
    rw [if_pos noTc, none, low, flow, bytes16_word16] at bit bit' inline ⊢
    simp only [at_cons, Nat.add_assoc, Nat.reduceAdd] at inline
    simp only [BitVec.reduceAnd] at bit bit'
    have kept : ((0#8 &&& 0xc0#8 ||| ipv6.tcf) &&& 0x0f#8) |||
        ((0#8 &&& 0xc0#8 ||| ipv6.tcf) >>> 2 &&& 0x30#8) = ipv6.tcf := by
      have small := noTc.2
      generalize ipv6.tcf = tcf at small
      revert tcf
      decide
    rw [if_pos (by rw [bit]; rfl), if_neg (by rw [bit']; decide)]
    simp only [inline, plain, kept]
    rfl
  rw [if_neg noTc, flow, bytes16_word16] at bit bit' inline ⊢
  simp only [at_cons, Nat.add_assoc, Nat.reduceAdd] at inline
  simp only [BitVec.reduceAnd] at bit bit'
  rw [if_pos (by rw [bit]; rfl), if_pos (by rw [bit']; rfl)]
  simp only [inline, vtc_kept, tcf_kept]
  rfl

theorem uncompressNh_compress (nh : iphc0 &&& 0x04#8 = (compressNh ipv6).1 &&& 0x04#8)
    (inline : At frame s.hc06ptr (compressNh ipv6).2) :
    uncompressNh frame iphc0 s =
      { buf := if ipv6.proto = ipProtoUdp then s.buf else write s.buf 6 [ipv6.proto]
        hc06ptr := s.hc06ptr + (compressNh ipv6).2.length } := by
  unfold compressNh at nh inline ⊢
  unfold uncompressNh
  by_cases udp : ipv6.proto = ipProtoUdp
  · simp only [udp, if_true] at nh ⊢
    rw [if_neg (by rw [nh]; decide)]
    rfl
  simp only [udp, if_false] at nh inline ⊢
  have zero : iphc0 &&& 0x04#8 = 0 := nh
  rw [if_pos zero, ((at_cons _ _ _ _).mp inline).1]
  rfl

theorem uncompressHlim_compress (hlim : iphc0 &&& 0x03#8 = (compressHlim ipv6).1 &&& 0x03#8)
    (inline : At frame s.hc06ptr (compressHlim ipv6).2) :
    uncompressHlim frame iphc0 s =
      { buf := write s.buf 7 [ipv6.ttl]
        hc06ptr := s.hc06ptr + (compressHlim ipv6).2.length } := by
  unfold compressHlim at hlim inline ⊢
  unfold uncompressHlim
  split_ifs at hlim inline with one middle most
  · rw [if_pos one, one, hlim]
    rfl
  · rw [if_neg one, if_pos middle, middle, hlim]
    rfl
  · rw [if_neg one, if_neg middle, if_pos most, most, hlim]
    rfl
  · have zero : iphc0 &&& 0x03#8 = 0 := hlim.trans BitVec.zero_and
    rw [if_neg one, if_neg middle, if_neg most, if_neg (not_not.mpr zero),
      ((at_cons _ _ _ _).mp inline).1]
    rfl

/-! ## UDP -/

theorem port_low {port : BitVec 16} (high : port &&& 0xff00#16 = 0xf000#16) :
    bytes16 (0xf000#16 + ((port - 0xf000#16).setWidth 8).setWidth 16) = bytes16 port := by
  obtain ⟨hi, lo, rfl⟩ := exists_word16 port
  rw [word16_and, word16_eq] at high
  simp [bytes16, and_ff] at high
  subst high
  revert lo
  decide

theorem ports_nibbles {src dest : BitVec 16} (high : src &&& 0xfff0#16 = 0xf0b0#16)
    (high' : dest &&& 0xfff0#16 = 0xf0b0#16) :
    bytes16 (0xf0b0#16 + ((((src - 0xf0b0#16) <<< 4).setWidth 8 +
        (dest - 0xf0b0#16).setWidth 8) >>> 4).setWidth 16) = bytes16 src ∧
      bytes16 (0xf0b0#16 + ((((src - 0xf0b0#16) <<< 4).setWidth 8 +
        (dest - 0xf0b0#16).setWidth 8) &&& 0x0f#8).setWidth 16) = bytes16 dest := by
  obtain ⟨hi, lo, rfl⟩ := exists_word16 src
  obtain ⟨hi', lo', rfl⟩ := exists_word16 dest
  rw [word16_and, word16_eq] at high high'
  simp [bytes16, and_ff] at high high'
  obtain ⟨rfl, nibble⟩ := high
  obtain ⟨rfl, nibble'⟩ := high'
  have low : ∀ b : Byte, b &&& 0xf0#8 = 0xb0#8 → b = 0xb0#8 ||| (b.setWidth 4).setWidth 8 := by
    decide
  rw [low lo nibble, low lo' nibble']
  generalize lo.setWidth 4 = n
  generalize lo'.setWidth 4 = n'
  revert n n'
  decide

theorem uncompressUdp_compress {udp : UdpHdr} (inline : At frame s.hc06ptr (compressUdp udp)) :
    frame s.hc06ptr &&& 0xf8#8 = 0xf0#8 ∧
    uncompressUdp frame s =
      { buf := write (write (write s.buf 6 [ipProtoUdp]) 40
          (bytes16 udp.srcport ++ bytes16 udp.destport)) 46 (bytes16 udp.udpchksum)
        hc06ptr := s.hc06ptr + (compressUdp udp).length } := by
  obtain ⟨c, c', chksum⟩ := exists_word16 udp.udpchksum
  obtain ⟨src, src', srcport⟩ := exists_word16 udp.srcport
  obtain ⟨dest, dest', destport⟩ := exists_word16 udp.destport
  unfold compressUdp compressPorts at inline ⊢
  unfold uncompressUdp
  split_ifs at inline ⊢ with both short short'
  · rw [chksum, bytes16_word16] at inline ⊢
    obtain ⟨src_kept, dest_kept⟩ := ports_nibbles both.1 both.2
    simp only [cons_append, nil_append, at_cons, Nat.add_assoc, Nat.reduceAdd] at inline
    rw [← src_kept, ← dest_kept]
    simp [inline]
  · have dest_kept := port_low short
    rw [chksum, srcport, bytes16_word16, bytes16_word16] at inline ⊢
    simp only [cons_append, nil_append, at_cons, Nat.add_assoc, Nat.reduceAdd] at inline
    simp [inline, dest_kept]
  · have src_kept := port_low short'
    rw [chksum, destport, bytes16_word16, bytes16_word16] at inline ⊢
    simp only [cons_append, nil_append, at_cons, Nat.add_assoc, Nat.reduceAdd] at inline
    simp [inline, src_kept]
  · rw [chksum, srcport, destport, bytes16_word16, bytes16_word16, bytes16_word16] at inline ⊢
    simp only [cons_append, nil_append, at_cons, Nat.add_assoc, Nat.reduceAdd] at inline
    simp [inline]

end Fields

/-! ## The two encoding bytes -/

theorem and_of_mask {x m p : Byte} (clear : x &&& m = 0) (inside : m &&& p = p) : x &&& p = 0 := by
  rw [← inside, ← BitVec.and_assoc, clear]
  exact BitVec.zero_and

theorem compressTc_bits (ipv6 : Ipv6Hdr) : (compressTc ipv6).1 &&& 0xe7#8 = 0 := by
  rw [compressTc_eq]
  split_ifs <;> simp

theorem compressNh_bits (ipv6 : Ipv6Hdr) : (compressNh ipv6).1 &&& 0xfb#8 = 0 := by
  unfold compressNh
  split <;> simp

theorem compressHlim_bits (ipv6 : Ipv6Hdr) : (compressHlim ipv6).1 &&& 0xfc#8 = 0 := by
  unfold compressHlim
  split_ifs <;> simp

theorem iphc0_bits (ipv6 : Ipv6Hdr) :
    let iphc0 := 0x60#8 ||| (compressTc ipv6).1 ||| (compressNh ipv6).1 ||| (compressHlim ipv6).1
    iphc0 &&& 0x18#8 = (compressTc ipv6).1 &&& 0x18#8 ∧
      iphc0 &&& 0x04#8 = (compressNh ipv6).1 &&& 0x04#8 ∧
      iphc0 &&& 0x03#8 = (compressHlim ipv6).1 &&& 0x03#8 := by
  have tc := compressTc_bits ipv6
  have nh := compressNh_bits ipv6
  have hlim := compressHlim_bits ipv6
  simp only [BitVec.and_or_distrib_right]
  refine ⟨?_, ?_, ?_⟩
  · rw [and_of_mask (p := 0x18#8) nh rfl, and_of_mask (p := 0x18#8) hlim rfl]
    simp
  · rw [and_of_mask (p := 0x04#8) tc rfl, and_of_mask (p := 0x04#8) hlim rfl]
    simp
  · rw [and_of_mask (p := 0x03#8) tc rfl, and_of_mask (p := 0x03#8) nh rfl]
    simp

theorem iidMode_bits (a : Ipv6Addr) (mac : VarAddr) :
    BitVec.ofNat 8 (iidMode a mac) <<< 4 &&& 0xcf#8 = 0 ∧
      BitVec.ofNat 8 (iidMode a mac) <<< 0 &&& 0xfc#8 = 0 := by
  exact iidMode_elim (by decide)

theorem compressSrcipaddr_bits (context : Option AddrContext) (mac : VarAddr) (a : Ipv6Addr) :
    (compressSrcipaddr context mac a).1 &&& 0x8f#8 = 0 := by
  unfold compressSrcipaddr
  split
  · simp
  split
  · simp only [compressLaddr_eq, BitVec.and_or_distrib_right]
    rw [and_of_mask (p := 0x8f#8) (iidMode_bits a mac).1 rfl]
    rfl
  split
  · simp only [compressLaddr_eq]
    exact and_of_mask (iidMode_bits a mac).1 rfl
  · simp

theorem compressDestipaddr_bits (context : Option AddrContext) (mac : VarAddr) (a : Ipv6Addr) :
    (compressDestipaddr context mac a).1 &&& 0xf0#8 = 0 := by
  unfold compressDestipaddr
  split
  · split
    · simp
    split
    · simp
    · split <;> simp
  split
  · simp only [compressTagaddr_eq, BitVec.and_or_distrib_right]
    rw [and_of_mask (p := 0xf0#8) (iidMode_bits a mac).2 rfl]
    rfl
  split
  · simp only [compressTagaddr_eq]
    exact and_of_mask (iidMode_bits a mac).2 rfl
  · simp

theorem iphc1_bits {src dest : Byte} (cid : Bool) (src_bits : src &&& 0x8f#8 = 0)
    (dest_bits : dest &&& 0xf0#8 = 0) :
    let iphc1 := (if cid then 0x80#8 else 0) ||| src ||| dest
    (iphc1 &&& 0x80#8 ≠ 0 ↔ cid = true) ∧ iphc1 &&& 0x40#8 = src &&& 0x40#8 ∧
      iphc1 &&& 0x30#8 = src &&& 0x30#8 ∧ iphc1 &&& 0x0f#8 = dest &&& 0x0f#8 := by
  simp only [BitVec.and_or_distrib_right]
  rw [and_of_mask (p := 0x80#8) src_bits rfl, and_of_mask (p := 0x80#8) dest_bits rfl,
    and_of_mask (p := 0x40#8) dest_bits rfl, and_of_mask (p := 0x30#8) dest_bits rfl,
    and_of_mask (p := 0x0f#8) src_bits rfl]
  cases cid <;> simp

end NuttxRtos.Sixlowpan
