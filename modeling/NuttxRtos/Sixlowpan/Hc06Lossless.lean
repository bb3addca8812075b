import NuttxRtos.Sixlowpan.Hc06Fields

/-!
# Round trips through IPHC

What the decompressor makes of a whole header, and when that is the header that was sent.
`sixlowpan_isbytebased` and `sixlowpan_issaddrbased` do not look at the first word of an interface
identifier.
-/

namespace NuttxRtos.Sixlowpan

open Segment List Option

/-! ## When an address is kept -/

/-- The context is found again under the number that was sent, and the first word of the interface
identifier is zero when the rest of it is a link address of one or two bytes. -/
def AddrKept (contexts : List AddrContext) (number : Byte) (a : Ipv6Addr) (mac : VarAddr) : Prop :=
  (∀ context, findAddrcontextByPrefix contexts a = some context →
    ∃ found, findAddrcontextByNumber contexts number = some found ∧ found.pfx = context.pfx) ∧
  ((findAddrcontextByPrefix contexts a).isSome ∨ isLinklocalPrefix a → sixlowpanIsmacbased a mac →
    mac.length ≠ 8 → a.word 4 = 0)

variable {a : Ipv6Addr}

variable {contexts : List AddrContext}

variable {mac : VarAddr} {number : Byte} {special : Bool}

theorem decodedIid_eq_iff :
    decodedIid a mac = a.bytes.drop 8 ↔
      (sixlowpanIsmacbased a mac → mac.length ≠ 8 → a.word 4 = 0) := by
  obtain ⟨b, bytes⟩ := a.exists_bytes
  have word : a.word 4 = 0 ↔ b 8 = 0 ∧ b 9 = 0 := by
    simp [Ipv6Addr.word, bytes, word16_eq, bytes16]
  unfold decodedIid
  rw [word, bytes]
  split
  · rename_i short
    constructor
    · intro equal _ _
      simp only [drop_succ_cons, drop_zero, cons_append, nil_append, List.cons.injEq] at equal
      exact ⟨equal.1.symm, equal.2.1.symm⟩
    intro zero
    obtain ⟨first, second⟩ := zero short.1 short.2
    rw [first, second]
    rfl
  rename_i long
  simp only [true_iff]
  intro based short
  exact absurd ⟨based, short⟩ long

theorem decodedAddr_eq_iff :
    decodedAddr contexts (findAddrcontextByPrefix contexts a) number a mac = some a.bytes ↔
      AddrKept contexts number a mac := by
  have halves : a.bytes = a.bytes.take 8 ++ a.bytes.drop 8 := (take_append_drop 8 _).symm
  have half : (a.bytes.take 8).length = 8 := by rw [length_take, a.sized]; rfl
  unfold AddrKept decodedAddr
  cases prefixed : findAddrcontextByPrefix contexts a with
  | some context =>
    have same : context.pfx = a.bytes.take 8 := by
      have matching := find?_some prefixed
      simp only [decide_eq_true_eq] at matching
      exact matching.2
    simp only [map_eq_some_iff, Option.some.injEq, forall_eq', isSome_some, true_or,
      true_implies]
    rw [← decodedIid_eq_iff]
    constructor
    · rintro ⟨found, number, equal⟩
      rw [halves] at equal
      obtain ⟨first, second⟩ := append_inj equal (by rw [found.sized, half])
      exact ⟨⟨found, number, first.trans same.symm⟩, second⟩
    rintro ⟨⟨found, number, equal⟩, iid⟩
    refine ⟨found, number, ?_⟩
    rw [equal, same, iid]
    exact halves.symm
  | none =>
    simp only [reduceCtorEq, false_implies, implies_true, true_and, isSome_none,
      Bool.false_eq_true, false_or, Option.some.injEq]
    by_cases linklocal : isLinklocalPrefix a = true
    · simp only [linklocal, if_true, true_implies]
      rw [← decodedIid_eq_iff]
      constructor
      · intro equal
        rw [halves] at equal
        simpa using (append_inj equal (by simp [half])).2
      intro iid
      rw [iid]
      exact halves.symm
    · simp [linklocal]

theorem length_decodedIid (a : Ipv6Addr) (mac : VarAddr) : (decodedIid a mac).length = 8 := by
  unfold decodedIid
  split <;> simp [a.sized]

variable {context : Option AddrContext} {bytes : List Byte}

theorem length_decodedAddr
    (decoded : decodedAddr contexts context number a mac = some bytes) : bytes.length = 16 := by
  unfold decodedAddr at decoded
  split at decoded
  · obtain ⟨found, -, rfl⟩ := map_eq_some_iff.mp decoded
    rw [length_append, found.sized, length_decodedIid]
  obtain rfl := Option.some.inj decoded
  split
  · rw [length_append, length_take, a.sized, length_decodedIid]
    rfl
  · exact a.sized

/-- A special address goes as it is, whether it is the source or the destination. -/
theorem length_decoded (decoded : (if special then some a.bytes
      else decodedAddr contexts context number a mac) = some bytes) : bytes.length = 16 := by
  split at decoded
  · exact Option.some.inj decoded ▸ a.sized
  · exact length_decodedAddr decoded

/-! ## The whole header -/

def srcPart (contexts : List AddrContext) (srcmac : VarAddr) (ipv6 : Ipv6Hdr) :
    Byte × Byte × List Byte :=
  compressSrcipaddr (findAddrcontextByPrefix contexts ipv6.srcipaddr) srcmac ipv6.srcipaddr

def destPart (contexts : List AddrContext) (destmac : VarAddr) (ipv6 : Ipv6Hdr) :
    Byte × Byte × List Byte :=
  compressDestipaddr (findAddrcontextByPrefix contexts ipv6.destipaddr) destmac ipv6.destipaddr

/-- Whether there is a byte with context numbers. -/
def hasContext (contexts : List AddrContext) (ipv6 : Ipv6Hdr) : Bool :=
  (findAddrcontextByPrefix contexts ipv6.destipaddr).isSome ||
    (findAddrcontextByPrefix contexts ipv6.srcipaddr).isSome

/-- The byte `iphc[2]` with the numbers of the contexts. -/
def contextByte (contexts : List AddrContext) (srcmac destmac : VarAddr) (ipv6 : Ipv6Hdr) : Byte :=
  (srcPart contexts srcmac ipv6).2.1 ||| (destPart contexts destmac ipv6).2.1

def iphc0Of (ipv6 : Ipv6Hdr) : Byte :=
  0x60#8 ||| (compressTc ipv6).1 ||| (compressNh ipv6).1 ||| (compressHlim ipv6).1

def iphc1Of (contexts : List AddrContext) (srcmac destmac : VarAddr) (ipv6 : Ipv6Hdr) : Byte :=
  (if hasContext contexts ipv6 then 0x80#8 else 0) ||| (srcPart contexts srcmac ipv6).1 |||
    (destPart contexts destmac ipv6).1

/-- The two or three bytes before the fields. -/
def encoding (contexts : List AddrContext) (srcmac destmac : VarAddr) (ipv6 : Ipv6Hdr) :
    List Byte :=
  iphc0Of ipv6 :: iphc1Of contexts srcmac destmac ipv6 ::
    if hasContext contexts ipv6 then [contextByte contexts srcmac destmac ipv6] else []

theorem sixlowpanCompresshdrHc06_eq (contexts : List AddrContext) (srcmac destmac : VarAddr)
    (ipv6 : Ipv6Hdr) (udp : UdpHdr) :
    sixlowpanCompresshdrHc06 contexts srcmac destmac ipv6 udp =
      encoding contexts srcmac destmac ipv6 ++ (compressTc ipv6).2 ++ (compressNh ipv6).2 ++
        (compressHlim ipv6).2 ++ (srcPart contexts srcmac ipv6).2.2 ++
        (destPart contexts destmac ipv6).2.2 ++
        if ipv6.proto = ipProtoUdp then compressUdp udp else [] :=
  rfl

def fieldsBuf (ipv6 : Ipv6Hdr) (buf : Buf) : Buf :=
  let buf := write buf 0 ([ipv6.vtc, ipv6.tcf] ++ bytes16 ipv6.flow)
  let buf := if ipv6.proto = ipProtoUdp then buf else write buf 6 [ipv6.proto]
  write buf 7 [ipv6.ttl]

/-- The UDP header without its length. -/
def udpBuf (ipv6 : Ipv6Hdr) (udp : UdpHdr) (buf : Buf) : Buf :=
  if ipv6.proto = ipProtoUdp then
    write (write (write buf 6 [ipProtoUdp]) 40 (bytes16 udp.srcport ++ bytes16 udp.destport)) 46
      (bytes16 udp.udpchksum)
  else buf

def lengthBuf (ipv6 : Ipv6Hdr) (len : List Byte) (buf : Buf) : Buf :=
  if ipv6.proto = ipProtoUdp then write (write buf 4 len) 44 len else write buf 4 len

def headerBuf (ipv6 : Ipv6Hdr) (udp : UdpHdr) (src dest len : List Byte) (buf : Buf) : Buf :=
  lengthBuf ipv6 len (udpBuf ipv6 udp (write (write (fieldsBuf ipv6 buf) 8 src) 24 dest))

section Header

variable {contexts : List AddrContext} {srcmac destmac : VarAddr} {ipv6 : Ipv6Hdr} {udp : UdpHdr}
variable {frame : ℕ → Byte} {start iplen ioLen : ℕ} {buf : Buf}

theorem iphc1Of_bits (contexts : List AddrContext) (srcmac destmac : VarAddr) (ipv6 : Ipv6Hdr) :
    (iphc1Of contexts srcmac destmac ipv6 &&& 0x80#8 ≠ 0 ↔ hasContext contexts ipv6 = true) ∧
      iphc1Of contexts srcmac destmac ipv6 &&& 0x40#8 =
        (srcPart contexts srcmac ipv6).1 &&& 0x40#8 ∧
      iphc1Of contexts srcmac destmac ipv6 &&& 0x30#8 =
        (srcPart contexts srcmac ipv6).1 &&& 0x30#8 ∧
      iphc1Of contexts srcmac destmac ipv6 &&& 0x0f#8 =
        (destPart contexts destmac ipv6).1 &&& 0x0f#8 :=
  iphc1_bits (hasContext contexts ipv6) (compressSrcipaddr_bits _ _ _)
    (compressDestipaddr_bits _ _ _)

theorem uncompress_fields (version : ipv6.vtc &&& 0xf0#8 = 0x60#8) {ptr : ℕ}
    (tcAt : At frame ptr (compressTc ipv6).2)
    (nhAt : At frame (ptr + (compressTc ipv6).2.length) (compressNh ipv6).2)
    (hlimAt : At frame (ptr + (compressTc ipv6).2.length + (compressNh ipv6).2.length)
      (compressHlim ipv6).2) :
    uncompressHlim frame (iphc0Of ipv6) (uncompressNh frame (iphc0Of ipv6)
        (uncompressTc frame (iphc0Of ipv6) ⟨buf, ptr⟩)) =
      ⟨fieldsBuf ipv6 buf, ptr + (compressTc ipv6).2.length + (compressNh ipv6).2.length +
        (compressHlim ipv6).2.length⟩ := by
  have bits := iphc0_bits ipv6
  change iphc0Of ipv6 &&& _ = _ ∧ iphc0Of ipv6 &&& _ = _ ∧ iphc0Of ipv6 &&& _ = _ at bits
  obtain ⟨tc, nh, hlim⟩ := bits
  rw [uncompressTc_compress version tc tcAt, uncompressNh_compress nh nhAt,
    uncompressHlim_compress hlim hlimAt]
  rfl

theorem uncompress_start (received : At frame start (encoding contexts srcmac destmac ipv6)) :
    frame start = iphc0Of ipv6 ∧ frame (start + 1) = iphc1Of contexts srcmac destmac ipv6 ∧
      (hasContext contexts ipv6 = true →
        frame (start + 2) = contextByte contexts srcmac destmac ipv6) ∧
      (if iphc1Of contexts srcmac destmac ipv6 &&& 0x80#8 ≠ 0 then start + 3 else start + 2) =
        start + (encoding contexts srcmac destmac ipv6).length := by
  have cid := (iphc1Of_bits contexts srcmac destmac ipv6).1
  obtain ⟨first, second, third⟩ := received
  refine ⟨first, second, fun present => ?_, ?_⟩
  · rw [if_pos present] at third
    exact third.1
  unfold encoding
  by_cases present : hasContext contexts ipv6 = true
  · rw [if_pos (cid.mpr present), if_pos present]
    rfl
  · rw [if_neg fun bit => present (cid.mp bit), if_neg present]
    rfl

theorem fieldsBuf_proto (other : ipv6.proto ≠ ipProtoUdp) :
    fieldsBuf ipv6 buf 6 = some ipv6.proto := by
  unfold fieldsBuf
  simp only [if_neg other]
  rfl

theorem uncompress_rest {s : Hc06State}
    (proto : ipv6.proto ≠ ipProtoUdp → s.buf 6 = some ipv6.proto)
    (udpAt : At frame s.hc06ptr (if ipv6.proto = ipProtoUdp then compressUdp udp else [])) :
    uncompressRest frame (iphc0Of ipv6) iplen ioLen ⟨buf, 0, start⟩ s =
      let frameHdrlen := (s.hc06ptr +
        (if ipv6.proto = ipProtoUdp then compressUdp udp else []).length) % 256
      ⟨lengthBuf ipv6 (lengthBytes iplen ioLen frameHdrlen (compressedHdrlen ipv6))
        (udpBuf ipv6 udp s.buf), compressedHdrlen ipv6, frameHdrlen⟩ := by
  have bit : iphc0Of ipv6 &&& 0x04#8 = (compressNh ipv6).1 &&& 0x04#8 := (iphc0_bits ipv6).2.1
  unfold compressNh at bit
  by_cases isUdp : ipv6.proto = ipProtoUdp
  · rw [if_pos isUdp] at udpAt bit
    obtain ⟨mark, result⟩ := uncompressUdp_compress udpAt
    have yes : (iphc0Of ipv6 &&& 0x04#8 ≠ 0 ∧ frame s.hc06ptr &&& 0xf8#8 = 0xf0#8) = True :=
      eq_true ⟨by rw [bit]; decide, mark⟩
    have get (len : List Byte) (two : len.length = 2) :
        Buf.get (write (write (write (write s.buf 6 [ipProtoUdp]) 40
          (bytes16 udp.srcport ++ bytes16 udp.destport)) 46 (bytes16 udp.udpchksum)) 4 len) 6 =
          ipProtoUdp := by
      unfold Buf.get
      rw [write_outside _ (.inr (by omega)), write_outside _ (.inl (by omega)),
        write_outside _ (.inl (by omega)), write_inside _ (by omega) (by simp)]
      rfl
    unfold uncompressRest lengthBuf udpBuf compressedHdrlen
    simp only [yes, decide_true, if_true, isUdp, result, Nat.zero_add]
    rw [if_pos (get _ (length_lengthBytes _ _ _ _))]
  rw [if_neg isUdp] at bit
  have no : (iphc0Of ipv6 &&& 0x04#8 ≠ 0 ∧ frame s.hc06ptr &&& 0xf8#8 = 0xf0#8) = False :=
    eq_false fun both => both.1 (bit.trans BitVec.zero_and)
  have get (len : List Byte) (two : len.length = 2) :
      Buf.get (write s.buf 4 len) 6 = ipv6.proto := by
    unfold Buf.get
    rw [write_outside _ (.inr (by omega)), proto isUdp]
    rfl
  unfold uncompressRest lengthBuf udpBuf compressedHdrlen
  simp only [no, decide_false, Bool.false_eq_true, if_false, isUdp, Nat.zero_add, Nat.add_zero,
    length_nil]
  rw [if_neg (by rw [get _ (length_lengthBytes _ _ _ _)]; exact isUdp)]

/-- The source address as the other side reads it. -/
def srcDecoded (contexts : List AddrContext) (srcmac destmac : VarAddr) (ipv6 : Ipv6Hdr) :
    Option (List Byte) :=
  decodedSrc contexts (findAddrcontextByPrefix contexts ipv6.srcipaddr)
    (contextByte contexts srcmac destmac ipv6) ipv6.srcipaddr srcmac

def destDecoded (contexts : List AddrContext) (srcmac destmac : VarAddr) (ipv6 : Ipv6Hdr) :
    Option (List Byte) :=
  decodedDest contexts (findAddrcontextByPrefix contexts ipv6.destipaddr)
    (contextByte contexts srcmac destmac ipv6) ipv6.destipaddr destmac

theorem uncompresshdr_eq (version : ipv6.vtc &&& 0xf0#8 = 0x60#8) (src_sized : Sized srcmac)
    (dest_sized : Sized destmac)
    (received : At frame start (sixlowpanCompresshdrHc06 contexts srcmac destmac ipv6 udp)) :
    sixlowpanUncompresshdrHc06 frame contexts (some srcmac) (some destmac) iplen ioLen
        ⟨buf, 0, start⟩ =
      match srcDecoded contexts srcmac destmac ipv6 with
      | none => ⟨fieldsBuf ipv6 buf, 0, start⟩
      | some src =>
        match destDecoded contexts srcmac destmac ipv6 with
        | none => ⟨write (fieldsBuf ipv6 buf) 8 src, 0, start⟩
        | some dest =>
          let frameHdrlen :=
            (start + (sixlowpanCompresshdrHc06 contexts srcmac destmac ipv6 udp).length) % 256
          ⟨headerBuf ipv6 udp src dest
            (lengthBytes iplen ioLen frameHdrlen (compressedHdrlen ipv6)) buf,
            compressedHdrlen ipv6, frameHdrlen⟩ := by
  rw [sixlowpanCompresshdrHc06_eq] at received ⊢
  simp only [at_append, length_append, ← Nat.add_assoc] at received
  obtain ⟨⟨⟨⟨⟨⟨head, tcAt⟩, nhAt⟩, hlimAt⟩, srcAt⟩, destAt⟩, udpAt⟩ := received
  obtain ⟨first, second, third, ptr⟩ := uncompress_start head
  obtain ⟨cid, sac, sam, low⟩ := iphc1Of_bits contexts srcmac destmac ipv6
  have src_cid : (findAddrcontextByPrefix contexts ipv6.srcipaddr).isSome →
      iphc1Of contexts srcmac destmac ipv6 &&& 0x80#8 ≠ 0 := fun present =>
    cid.mpr (Bool.or_eq_true_iff.mpr (.inr present))
  have dest_cid : (findAddrcontextByPrefix contexts ipv6.destipaddr).isSome →
      iphc1Of contexts srcmac destmac ipv6 &&& 0x80#8 ≠ 0 := fun present =>
    cid.mpr (Bool.or_eq_true_iff.mpr (.inl present))
  unfold sixlowpanUncompresshdrHc06
  simp only [first, second, ptr, uncompress_fields version tcAt nhAt hlimAt, bind_some]
  rw [uncompressSrcipaddr_compress src_sized sac sam src_cid srcAt]
  have byte : decodedSrc contexts (findAddrcontextByPrefix contexts ipv6.srcipaddr)
      (frame (start + 2)) ipv6.srcipaddr srcmac =
      srcDecoded contexts srcmac destmac ipv6 := by
    unfold srcDecoded
    cases prefixed : findAddrcontextByPrefix contexts ipv6.srcipaddr with
    | none => rfl
    | some context => rw [third (Bool.or_eq_true_iff.mpr (.inr (by rw [prefixed]; rfl)))]
  have byte' : decodedDest contexts (findAddrcontextByPrefix contexts ipv6.destipaddr)
      (frame (start + 2)) ipv6.destipaddr destmac =
      destDecoded contexts srcmac destmac ipv6 := by
    unfold destDecoded
    cases prefixed : findAddrcontextByPrefix contexts ipv6.destipaddr with
    | none => rfl
    | some context => rw [third (Bool.or_eq_true_iff.mpr (.inl (by rw [prefixed]; rfl)))]
  rw [byte]
  cases srcDecoded contexts srcmac destmac ipv6 with
  | none => rfl
  | some src =>
    simp only [map_some]
    rw [uncompressDestipaddr_compress dest_sized low dest_cid destAt, byte']
    cases destDecoded contexts srcmac destmac ipv6 with
    | none => rfl
    | some dest =>
      simp only [map_some]
      rw [uncompress_rest (fun other => ?_) udpAt]
      · simp only [length_append, ← Nat.add_assoc]
        rfl
      change write (write (fieldsBuf ipv6 buf) 8 src) 24 dest 6 = _
      rw [write_outside _ (.inl (by omega)), write_outside _ (.inl (by omega)),
        fieldsBuf_proto other]

def headerBytes (ipv6 : Ipv6Hdr) (udp : UdpHdr) : List Byte :=
  ipv6.bytes ++ if ipv6.proto = ipProtoUdp then udp.bytes else []

section Buffer

variable {src dest len : List Byte}

/-- What is written stays: no write falls on another. -/
theorem written_header (buf : Buf) (ipv6 : Ipv6Hdr) (udp : UdpHdr) (src_length : src.length = 16)
    (dest_length : dest.length = 16) (len_length : len.length = 2) :
    Written (headerBuf ipv6 udp src dest len buf) 0
      ([ipv6.vtc, ipv6.tcf] ++ bytes16 ipv6.flow ++ len ++ [ipv6.proto] ++ [ipv6.ttl] ++ src ++
        dest ++ if ipv6.proto = ipProtoUdp then
          (bytes16 udp.srcport ++ bytes16 udp.destport) ++ len ++ bytes16 udp.udpchksum else []) := by
  have four : ([ipv6.vtc, ipv6.tcf] ++ bytes16 ipv6.flow).length = 4 := rfl
  have ports : (bytes16 udp.srcport ++ bytes16 udp.destport).length = 4 := rfl
  unfold headerBuf lengthBuf udpBuf fieldsBuf
  generalize [ipv6.vtc, ipv6.tcf] ++ bytes16 ipv6.flow = first at four
  generalize bytes16 udp.srcport ++ bytes16 udp.destport = ports at ports
  split_ifs with isUdp
  all_goals
    simp only [written_append, length_append, length_singleton, four, ports, src_length,
      dest_length, len_length, Nat.zero_add, Nat.reduceAdd, and_assoc]
  · refine ⟨?_, ?_, ?_, ?_, ?_, ?_, ?_, ?_, ?_⟩
    all_goals
      repeat first
        | exact written_write _ _ _
        | exact isUdp ▸ written_write _ _ _
        | refine Written.write ?_ (by simp only [length_cons, length_nil, length_bytes16, *]; omega)
  · refine ⟨?_, ?_, ?_, ?_, ?_, ?_, trivial⟩
    all_goals
      repeat first
        | exact written_write _ _ _
        | refine Written.write ?_ (by simp only [length_cons, length_nil, *]; omega)

/-- The buffer has the headers that were sent exactly when addresses and lengths are theirs. -/
theorem written_header_iff (src_length : src.length = 16) (dest_length : dest.length = 16)
    (len_length : len.length = 2) :
    Written (headerBuf ipv6 udp src dest len buf) 0 (headerBytes ipv6 udp) ↔
      src = ipv6.srcipaddr.bytes ∧ dest = ipv6.destipaddr.bytes ∧ len = bytes16 ipv6.len ∧
        (ipv6.proto = ipProtoUdp → udp.udplen = ipv6.len) := by
  have src_sized := ipv6.srcipaddr.sized
  have dest_sized := ipv6.destipaddr.sized
  have whole := written_header buf ipv6 udp src_length dest_length len_length
  unfold headerBytes Ipv6Hdr.bytes UdpHdr.bytes
  constructor
  · intro held
    simp only [written_append, length_append, length_cons, length_nil, length_bytes16, src_length, dest_length, len_length, src_sized, dest_sized] at held whole
    have len_eq : len = bytes16 ipv6.len :=
      Written.eq whole.1.1.1.1.1.2 held.1.1.1.1.2 len_length
    refine ⟨?_, ?_, len_eq, fun isUdp => ?_⟩
    · exact Written.eq whole.1.1.2 held.1.1.2 (by rw [src_length, src_sized])
    · exact Written.eq whole.1.2 held.1.2 (by rw [dest_length, dest_sized])
    simp only [if_pos isUdp, written_append, length_append, length_bytes16] at held whole
    exact bytes16_inj.mp ((Written.eq held.2.1.2 whole.2.1.2 len_length.symm).trans len_eq)
  · rintro ⟨rfl, rfl, rfl, udplen⟩
    by_cases isUdp : ipv6.proto = ipProtoUdp
    · rw [udplen isUdp]
      simpa using whole
    · simpa [isUdp] using whole

end Buffer

/-! ## The round trip -/

/-- The number of the context of the source, with 0 for none. -/
def srcNumber (contexts : List AddrContext) (ipv6 : Ipv6Hdr) : Byte :=
  if netIsAddrUnspecified ipv6.srcipaddr then 0
  else (findAddrcontextByPrefix contexts ipv6.srcipaddr).elim 0 (·.number)

def destNumber (contexts : List AddrContext) (ipv6 : Ipv6Hdr) : Byte :=
  if netIsAddrMcast ipv6.destipaddr then 0
  else (findAddrcontextByPrefix contexts ipv6.destipaddr).elim 0 (·.number)

/-- What the header must meet to survive. Of a context number four bits are sent, and the other four
of the destination's go over those of the source's. -/
structure LossFree (contexts : List AddrContext) (srcmac destmac : VarAddr) (ipv6 : Ipv6Hdr)
    (iplen : ℕ) : Prop where
  src : netIsAddrUnspecified ipv6.srcipaddr ∨
    AddrKept contexts ((srcNumber contexts ipv6 &&& 0x0f#8) ||| destNumber contexts ipv6 >>> 4)
      ipv6.srcipaddr srcmac
  dest : netIsAddrMcast ipv6.destipaddr ∨
    AddrKept contexts (destNumber contexts ipv6 &&& 0x0f#8) ipv6.destipaddr destmac
  len : iplen ≠ 0 ∨ ipv6.len.toNat < 256

theorem contextByte_eq (contexts : List AddrContext) (srcmac destmac : VarAddr) (ipv6 : Ipv6Hdr) :
    contextByte contexts srcmac destmac ipv6 =
      srcNumber contexts ipv6 <<< 4 ||| destNumber contexts ipv6 := by
  unfold contextByte srcPart destPart srcNumber destNumber compressSrcipaddr compressDestipaddr
  congr 1 <;> grind

theorem contextByte_high (src dest : Byte) :
    (src <<< 4 ||| dest) >>> 4 = (src &&& 0x0f#8) ||| dest >>> 4 := by
  rw [BitVec.ushiftRight_or_distrib]
  congr 1
  revert src
  decide

theorem contextByte_low (src dest : Byte) : (src <<< 4 ||| dest) &&& 0x0f#8 = dest &&& 0x0f#8 := by
  have none (src : Byte) : src <<< 4 &&& 0x0f#8 = 0 := by
    revert src
    decide
  rw [BitVec.and_or_distrib_right, none]
  simp

theorem decoded_eq_iff : (if special then some a.bytes else
      decodedAddr contexts (findAddrcontextByPrefix contexts a) number a mac) = some a.bytes ↔
      special ∨ AddrKept contexts number a mac := by
  cases special with
  | true => simp
  | false => simp [decodedAddr_eq_iff]

theorem word16_toNat (hi lo : Byte) : (word16 hi lo).toNat = hi.toNat * 256 + lo.toNat := by
  unfold word16
  rw [BitVec.toNat_append, ← Nat.shiftLeft_add_eq_or_of_lt lo.isLt, Nat.shiftLeft_eq]

/-- The length of a frame on its own comes back when it fits a byte, that of a fragment always. -/
theorem lengthBytes_eq_iff {len : BitVec 16} {total hdrlen : ℕ} (small : iplen < 2 ^ 16)
    (length : if iplen = 0 then ioLen + hdrlen = total + ipv6Hdrlen + len.toNat
      else iplen = ipv6Hdrlen + len.toNat) :
    lengthBytes iplen ioLen (total % 256) hdrlen = bytes16 len ↔ iplen ≠ 0 ∨ len.toNat < 256 := by
  obtain ⟨hi, lo, rfl⟩ := exists_word16 len
  have value := word16_toNat hi lo
  have hi_small := hi.isLt
  have lo_small := lo.isLt
  unfold lengthBytes
  by_cases whole : iplen = 0
  · rw [if_pos whole] at length
    have low : BitVec.ofInt 8 ((ioLen : ℤ) - (total % 256 : ℕ) + hdrlen - ipv6Hdrlen) = lo := by
      apply BitVec.eq_of_toNat_eq
      rw [BitVec.toNat_ofInt]
      unfold ipv6Hdrlen at length ⊢
      omega
    have zero : (0 : Byte) = hi ↔ hi.toNat = 0 := by
      rw [eq_comm, ← BitVec.toNat_inj]
      rfl
    rw [if_pos whole, low, bytes16_word16]
    simp only [List.cons.injEq, and_true, zero, whole, ne_eq, not_true_eq_false, false_or]
    omega
  rw [if_neg whole] at length ⊢
  have same : BitVec.ofInt 16 ((iplen : ℤ) - ipv6Hdrlen) = word16 hi lo := by
    apply BitVec.eq_of_toNat_eq
    rw [BitVec.toNat_ofInt]
    unfold ipv6Hdrlen at length ⊢
    omega
  rw [same]
  simp [whole]

/-- The decompressor gives back the headers exactly when the contexts are found again, no address is
taken for one made from a link address, and the length fits. -/
theorem hc06_round_trip_iff (version : ipv6.vtc &&& 0xf0#8 = 0x60#8) (src_sized : Sized srcmac)
    (dest_sized : Sized destmac) (udplen : ipv6.proto = ipProtoUdp → udp.udplen = ipv6.len)
    (received : At frame start (sixlowpanCompresshdrHc06 contexts srcmac destmac ipv6 udp))
    (small : iplen < 2 ^ 16) (length : if iplen = 0 then ioLen + compressedHdrlen ipv6 =
        start + (sixlowpanCompresshdrHc06 contexts srcmac destmac ipv6 udp).length + ipv6Hdrlen +
          ipv6.len.toNat
      else iplen = ipv6Hdrlen + ipv6.len.toNat) :
    let h := sixlowpanUncompresshdrHc06 frame contexts (some srcmac) (some destmac) iplen ioLen
      ⟨buf, 0, start⟩
    (Written h.buf 0 (headerBytes ipv6 udp) ∧ h.uncompHdrlen = compressedHdrlen ipv6 ∧
      h.frameHdrlen =
        (start + (sixlowpanCompresshdrHc06 contexts srcmac destmac ipv6 udp).length) % 256) ↔
      LossFree contexts srcmac destmac ipv6 iplen := by
  intro h
  have result : h = _ := uncompresshdr_eq version src_sized dest_sized received
  have positive : 0 ≠ compressedHdrlen ipv6 := by
    unfold compressedHdrlen
    split <;> decide
  have conditions : LossFree contexts srcmac destmac ipv6 iplen ↔
      srcDecoded contexts srcmac destmac ipv6 = some ipv6.srcipaddr.bytes ∧
      destDecoded contexts srcmac destmac ipv6 = some ipv6.destipaddr.bytes ∧
      (iplen ≠ 0 ∨ ipv6.len.toNat < 256) := by
    rw [srcDecoded, destDecoded, decodedSrc, decodedDest, decoded_eq_iff, decoded_eq_iff,
      contextByte_eq, contextByte_high, contextByte_low]
    exact ⟨fun free => ⟨free.src, free.dest, free.len⟩, fun ⟨src, dest, len⟩ => ⟨src, dest, len⟩⟩
  rw [conditions, result]
  cases src_decoded : srcDecoded contexts srcmac destmac ipv6 with
  | none => simp [positive]
  | some src =>
    cases dest_decoded : destDecoded contexts srcmac destmac ipv6 with
    | none => simp [positive]
    | some dest =>
      simp only [and_true, Option.some.injEq]
      rw [written_header_iff (length_decoded src_decoded) (length_decoded dest_decoded)
        (length_lengthBytes _ _ _ _), lengthBytes_eq_iff small length, and_iff_left udplen]

end Header

/-! ## Two packets -/

def prefixes : List AddrContext :=
  [⟨1, 1, [0x20, 0x01, 0x0d, 0xb8, 0, 0, 0, 1], rfl⟩,
    ⟨1, 2, [0x20, 0x01, 0x0d, 0xb8, 0, 0, 0, 2], rfl⟩]

/-- From `2001:db8:0:1::ff:fe00:1` to `2001:db8:0:2::5`. -/
def datagram : Ipv6Hdr :=
  { vtc := 0x60#8, tcf := 0, flow := 0, len := 24, proto := ipProtoUdp, ttl := 64
    srcipaddr := ⟨[0x20, 0x01, 0x0d, 0xb8, 0, 0, 0, 1, 0, 0, 0, 0xff, 0xfe, 0, 0, 1], rfl⟩
    destipaddr := ⟨[0x20, 0x01, 0x0d, 0xb8, 0, 0, 0, 2, 0, 0, 0, 0, 0, 0, 0, 5], rfl⟩ }

theorem hc06_round_trip_iff_contexts :
    let udp : UdpHdr := ⟨0xf0b1#16, 0xf0b2#16, 24, 0x1234#16⟩
    let sent := sixlowpanCompresshdrHc06 prefixes [0, 1] [0, 2] datagram udp
    let h := sixlowpanUncompresshdrHc06 (fun i => sent.getD i 0) prefixes (some [0, 1])
      (some [0, 2]) 0 31 ⟨fun _ => none, 0, 0⟩
    sent.length = 15 ∧ sent.getD 2 0 = 0x12#8 ∧ Written h.buf 0 (headerBytes datagram udp) ∧
      h.frameHdrlen = 15 := by
  intro udp sent h
  have size : sent.length = 15 := by decide
  have kept : Written h.buf 0 (headerBytes datagram udp) ∧
      h.uncompHdrlen = compressedHdrlen datagram ∧ h.frameHdrlen = (0 + sent.length) % 256 :=
    (hc06_round_trip_iff (by decide) (.inr (.inl rfl)) (.inr (.inl rfl)) (by decide)
      (at_getD sent 0) (by decide) (by decide)).mpr
      ⟨.inr ⟨fun context found => ⟨context, .trans rfl found, rfl⟩, by decide⟩,
        .inr ⟨fun context found => ⟨context, .trans rfl found, rfl⟩, by decide⟩, .inr (by decide)⟩
  exact ⟨size, by decide, kept.1, kept.2.2.trans (by rw [size])⟩

/-- Its interface identifier, `1234:ff:fe00:1`, ends in the two-byte link address of the sender. -/
def unicast : Ipv6Hdr :=
  { vtc := 0x60#8, tcf := 0, flow := 0, len := 24, proto := ipProtoIcmp6, ttl := 64
    srcipaddr :=
      ⟨[0xfe, 0x80, 0, 0, 0, 0, 0, 0, 0x12, 0x34, 0, 0xff, 0xfe, 0, 0, 1], rfl⟩
    destipaddr := ⟨[0xff, 0x02, 0, 0, 0, 0, 0, 0, 0, 0, 0, 0, 0, 0, 0, 1], rfl⟩ }

/-- The source address comes back as `fe80::ff:fe00:1`. -/
theorem elided_word_is_lost :
    let sent := sixlowpanCompresshdrHc06 [] [0, 1] [0xff, 0xff] unicast ⟨0, 0, 0, 0⟩
    let h := sixlowpanUncompresshdrHc06 (fun i => sent.getD i 0) [] (some [0, 1])
      (some [0xff, 0xff]) 0 28 ⟨fun _ => none, 0, 0⟩
    Written h.buf 8 [0xfe, 0x80, 0, 0, 0, 0, 0, 0, 0, 0, 0, 0xff, 0xfe, 0, 0, 1] ∧
      ¬Written h.buf 0 (headerBytes unicast ⟨0, 0, 0, 0⟩) := by
  decide

end NuttxRtos.Sixlowpan
