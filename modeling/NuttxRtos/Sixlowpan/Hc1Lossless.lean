import NuttxRtos.Sixlowpan.Hc06Lossless
import NuttxRtos.Sixlowpan.Reassembly

/-!
# Packets through HC1

A packet that fits one frame, from `sixlowpan_queue_frames` to the buffer of the receiver. Behind
the IPv6 dispatch it arrives as it was sent.
-/

namespace NuttxRtos.Sixlowpan

open Segment List Option

/-! ## Sending -/

def UdpHdr.ofBytes (l : List Byte) : UdpHdr :=
  { srcport := word16 (l.getD 0 0) (l.getD 1 0), destport := word16 (l.getD 2 0) (l.getD 3 0)
    udplen := word16 (l.getD 4 0) (l.getD 5 0), udpchksum := word16 (l.getD 6 0) (l.getD 7 0) }

structure Packet where
  ipv6 : Ipv6Hdr
  l4hdr : List Byte
  payload : List Byte
  proto : ipv6.proto = ipProtoTcp ∨ ipv6.proto = ipProtoUdp ∨ ipv6.proto = ipProtoIcmp6
  l4hdr_length : l4hdr.length = protocolHdrlen ipv6.proto (l4hdr.getD 12 0)
  tcp_length : ipv6.proto = ipProtoTcp → 20 ≤ l4hdr.length
  len : ipv6.len.toNat = l4hdr.length + payload.length

def Packet.bytes (p : Packet) : List Byte := p.ipv6.bytes ++ p.l4hdr ++ p.payload

def Packet.udp (p : Packet) : UdpHdr := UdpHdr.ofBytes p.l4hdr

/-- The sender: its link address, the MAC header of its frames, and how long they may be. The
lengths of headers are in `g_frame_hdrlen`, which is a byte. -/
structure Radio where
  mac : VarAddr
  machdr : List Byte
  machdr_short : machdr.length + 101 < 256
  framelen : ℕ

def sixlowpanProtosize (p : Packet) : ℕ := protocolHdrlen p.ipv6.proto (p.l4hdr.getD 12 0)

/-- The frame of a packet that needs one only; `none` stands for several fragments. `threshold` is
`CONFIG_NET_6LOWPAN_COMPRESSION_THRESHOLD`. -/
def sixlowpanQueueFrames (cfg : Config) (threshold : ℕ) (radio : Radio) (destmac : VarAddr)
    (p : Packet) : Option Iob :=
  let compressed :=
    if threshold ≤ p.payload.length then
      sixlowpanCompresshdrHc1 cfg.minport radio.mac destmac p.ipv6 p.udp
    else (.inline, sixlowpanCompressIpv6hdr p.ipv6)
  let protosize := if compressed.1 = .inline then sixlowpanProtosize p else 0
  let frameHdrlen := radio.machdr.length + compressed.2.length
  -- The difference is compared as a `size_t`.
  if ((radio.framelen : ℤ) - frameHdrlen - protosize) % 2 ^ 32 < p.payload.length then none
  else
    let bytes := radio.machdr ++ (compressed.2 ++ (p.l4hdr.take protosize ++ p.payload))
    some { data := fun i => bytes.getD i 0, len := bytes.length, offset := radio.machdr.length }

def Result.Rebuilt (result : Result) (p : Packet) : Prop :=
  match result with
  | .complete _ reass => reass.pktlen = p.bytes.length ∧ Written reass.buf 0 p.bytes
  | _ => False

instance (result : Result) (p : Packet) : Decidable (result.Rebuilt p) :=
  match result with
  | .complete _ reass =>
    inferInstanceAs (Decidable (reass.pktlen = p.bytes.length ∧ Written reass.buf 0 p.bytes))
  | .incomplete => isFalse id
  | .failed _ => isFalse id

/-! ## Sizes -/

@[simp] theorem Ipv6Hdr.length_bytes (h : Ipv6Hdr) : h.bytes.length = ipv6Hdrlen := by
  simp [Ipv6Hdr.bytes, h.srcipaddr.sized, h.destipaddr.sized, ipv6Hdrlen]

theorem UdpHdr.bytes_ofBytes {l : List Byte} (size : l.length = 8) :
    (UdpHdr.ofBytes l).bytes = l := by
  match l, size with
  | [a, b, c, d, e, f, g, h], _ => simp [UdpHdr.ofBytes, UdpHdr.bytes]

theorem protocolHdrlen_le (proto tcpoffset : Byte) : protocolHdrlen proto tcpoffset ≤ 60 := by
  have nibble : ∀ b : Byte, (b.toNat >>> 4) <<< 2 ≤ 60 := by decide
  unfold protocolHdrlen
  split
  · exact nibble tcpoffset
  split
  · decide
  · split <;> decide

variable {p : Packet}

theorem Packet.length_bytes (p : Packet) :
    p.bytes.length = ipv6Hdrlen + p.l4hdr.length + p.payload.length := by
  simp [Packet.bytes, Nat.add_assoc]

theorem Packet.length_udp (isUdp : p.ipv6.proto = ipProtoUdp) : p.l4hdr.length = 8 := by
  rw [p.l4hdr_length, isUdp]
  rfl

def Packet.rest (p : Packet) : List Byte :=
  if p.ipv6.proto = ipProtoUdp then p.payload else p.l4hdr ++ p.payload

theorem Packet.bytes_eq (p : Packet) : p.bytes = headerBytes p.ipv6 p.udp ++ p.rest := by
  unfold Packet.bytes headerBytes Packet.udp Packet.rest
  by_cases isUdp : p.ipv6.proto = ipProtoUdp
  · rw [if_pos isUdp, if_pos isUdp, UdpHdr.bytes_ofBytes (Packet.length_udp isUdp)]
  · rw [if_neg isUdp, if_neg isUdp, append_nil, append_assoc]

/-! ## Receiving -/

variable {cfg : Config} {s : State} {input : Input}

theorem Iob.dispatch_eq (iob : Iob) :
    iob.dispatch = (iob.data iob.offset &&& 0xf8#8).setWidth 16 := by
  have masks : (0xf800#16).extractLsb' 8 8 = 0xf8#8 ∧ (0xf800#16).extractLsb' 0 8 = 0#8 :=
    ⟨rfl, rfl⟩
  unfold Iob.dispatch
  rw [word16_and, masks.1, masks.2, BitVec.and_zero]
  generalize iob.data iob.offset &&& 0xf8#8 = byte
  apply BitVec.eq_of_toNat_eq
  rw [BitVec.toNat_ushiftRight, word16_toNat, BitVec.toNat_setWidth, Nat.shiftRight_eq_div_pow]
  have high := byte.isLt
  have zero : (0#8).toNat = 0 := rfl
  omega

variable {h : Headers} {rest made : List Byte} {buf : Buf} {minport : ℕ} {mac srcmac : VarAddr}

theorem rebuilt_iff (accum : s.radio.accumlen = 0) {start : ℕ} {byte : Byte}
    (start_eq : input.iob.offset = start) (dispatch : input.iob.data start = byte)
    (whole : byte &&& 0xf8#8 ≠ 0xc0#8 ∧ byte &&& 0xf8#8 ≠ 0xe0#8) {protosize : ℕ}
    (headers : uncompressHeaders cfg input.metadata input.iob 0 true
      ⟨s.radio.buf, 0, input.iob.offset % 256⟩ = some (h, protosize))
    (received : At input.iob.data h.frameHdrlen rest)
    (len : input.iob.len = h.frameHdrlen + rest.length) (small : rest.length < 2 ^ 16) :
    (sixlowpanFrameProcess cfg input s).1.Rebuilt p ↔ h.uncompHdrlen + rest.length ≤ cfg.pktsize ∧
        h.uncompHdrlen + rest.length = p.bytes.length ∧
        Written (write h.buf h.uncompHdrlen rest) 0 p.bytes := by
  have paysize : (((input.iob.len : ℤ) - h.frameHdrlen) % 2 ^ 16).toNat = rest.length := by
    omega
  have copied : copyPayload cfg input.iob h.uncompHdrlen h.frameHdrlen h.buf =
      if cfg.pktsize < rest.length then .error .enospc
      else if cfg.pktsize < h.uncompHdrlen + rest.length then .error .enomem
      else .ok (write h.buf h.uncompHdrlen rest, rest.length) := by
    unfold copyPayload
    simp only [paysize, received.read rfl]
  have split : ∀ b : Byte, b.setWidth 16 ≠ 0x00c0#16 ∧ b.setWidth 16 ≠ 0x00e0#16 ↔
      b ≠ 0xc0#8 ∧ b ≠ 0xe0#8 := by decide
  rw [← split, ← dispatch, ← start_eq, ← input.iob.dispatch_eq] at whole
  unfold sixlowpanFrameProcess
  simp only [if_neg whole.1, if_neg whole.2]
  unfold processWhole
  simp only [headers, copied]
  by_cases fits : h.uncompHdrlen + rest.length ≤ cfg.pktsize
  · rw [if_neg (by omega), if_neg (by omega)]
    unfold finish
    simp only [accum, true_or, if_true, fits, true_and]
    unfold Result.Rebuilt
    rw [Nat.add_comm rest.length]
  by_cases large : cfg.pktsize < rest.length
  · rw [if_pos large]
    simp [finish, Result.Rebuilt, fits]
  · rw [if_neg large, if_pos (by omega)]
    simp [finish, Result.Rebuilt, fits]

/-! ## Without compression -/

section Frame

variable {frame : ℕ → Byte} {start : ℕ} {buf : Buf}

theorem uncompressIpv6hdr_eq {ipv6 : Ipv6Hdr} (received : At frame start
    (sixlowpanCompressIpv6hdr ipv6)) (short : start + 41 < 256) :
    sixlowpanUncompressIpv6hdr frame ⟨buf, 0, start⟩ =
      ⟨write buf 0 ipv6.bytes, ipv6Hdrlen, start + 41⟩ := by
  obtain ⟨-, header⟩ := received
  unfold sixlowpanUncompressIpv6hdr
  dsimp only
  rw [Nat.mod_eq_of_lt (by omega), header.read ipv6.length_bytes, Nat.mod_eq_of_lt (by
    unfold ipv6Hdrlen; omega), Nat.zero_add]
  rfl

theorem protocolHdrlen_frame (received : At frame start p.l4hdr) :
    protocolHdrlen p.ipv6.proto (frame (start + 12)) = p.l4hdr.length := by
  rw [p.l4hdr_length]
  by_cases isTcp : p.ipv6.proto = ipProtoTcp
  · have long := p.tcp_length isTcp
    rw [← received.read rfl]
    simp [Segment.read, show 12 < p.l4hdr.length by omega]
  · unfold protocolHdrlen
    rw [if_neg isTcp, if_neg isTcp]

theorem uncompressIpv6proto_eq (received : At frame start p.l4hdr)
    (short : start + p.l4hdr.length < 256) :
    sixlowpanUncompressIpv6proto frame ⟨write buf 0 p.ipv6.bytes, ipv6Hdrlen, start⟩ =
      (⟨write buf 0 (p.ipv6.bytes ++ p.l4hdr), ipv6Hdrlen + p.l4hdr.length,
        start + p.l4hdr.length⟩, p.l4hdr.length) := by
  unfold sixlowpanUncompressIpv6proto
  simp only [show Buf.get (write buf 0 p.ipv6.bytes) 6 = p.ipv6.proto from rfl, protocolHdrlen_frame received, received.read rfl]
  rw [write_append _ _ (by rw [Ipv6Hdr.length_bytes, Nat.zero_add]), Nat.mod_eq_of_lt short]

/-! ## With HC1 -/

theorem exists_ipfromaddr {a : Ipv6Addr} {mac : VarAddr} (based : sixlowpanIsmacbased a mac) :
    ∃ bytes, sixlowpanIpfromaddr mac = some bytes := by
  unfold sixlowpanIsmacbased at based
  unfold sixlowpanIpfromaddr
  generalize List.length mac = n at based ⊢
  match n with
  | 1 | 2 | 8 => exact ⟨_, rfl⟩

variable {ipv6 : Ipv6Hdr} {udp : UdpHdr} {mac : VarAddr} {made : List Byte} {minport ioLen : ℕ}

theorem uncompressHc1_tail {h : Headers} (found : sixlowpanIpfromaddr mac = some made)
    (encoding : frame (start + 1) &&& 0xf0#8 = 0xf0#8) (next : uncompressHc1Next frame minport
      ⟨write buf 0 [0x60#8, 0, 0, 0], 0 + ipv6Hdrlen, start⟩ = .ok h)
    (proto : h.buf 6 = some ipv6.proto) :
    sixlowpanUncompresshdrHc1 frame minport (some mac) 0 ioLen ⟨buf, 0, start⟩ =
      ⟨lengthBuf ipv6 (lengthBytes 0 ioLen h.frameHdrlen h.uncompHdrlen)
        (write (write h.buf 8 made) 24 made), h.uncompHdrlen, h.frameHdrlen⟩ := by
  have masks : ∀ b : Byte, b &&& 0xf0#8 = 0xf0#8 →
      b &&& 0xc0#8 = 0xc0#8 ∧ b &&& 0x30#8 = 0x30#8 := by decide
  have sized := length_sixlowpanIpfromaddr found
  have get (len : List Byte) (two : len.length = 2) :
      Buf.get (write (write (write h.buf 8 made) 24 made) 4 len) 6 = ipv6.proto := by
    unfold Buf.get
    rw [write_outside _ (.inr (by omega)), write_outside _ (.inl (by omega)),
      write_outside _ (.inl (by omega)), proto]
    rfl
  unfold sixlowpanUncompresshdrHc1
  simp only [next, (masks _ encoding).1, (masks _ encoding).2, if_true]
  unfold writeIpfromaddr lengthBuf
  simp only [bind_some, found, get _ (length_lengthBytes _ _ _ _)]

theorem uncompressHc1_other {encoding : Byte}
    (received : At frame start [dispatchHc1, encoding, ipv6.ttl])
    (case : ipv6.proto = ipProtoIcmp6 ∧ encoding = 0xfc#8 ∨
      ipv6.proto = ipProtoTcp ∧ encoding = 0xfe#8)
    (zero : ipv6.vtc = 0x60#8 ∧ ipv6.tcf = 0 ∧ ipv6.flow = 0)
    (found : sixlowpanIpfromaddr mac = some made) (short : start + 3 < 256) :
    sixlowpanUncompresshdrHc1 frame minport (some mac) 0 ioLen ⟨buf, 0, start⟩ =
      ⟨headerBuf ipv6 udp made made
        (lengthBytes 0 ioLen ((start + 3) % 256) (compressedHdrlen ipv6)) buf,
        compressedHdrlen ipv6, start + 3⟩ := by
  obtain ⟨-, second, third, -⟩ := received
  obtain ⟨vtc, tcf, flow⟩ := zero
  have other : ipv6.proto ≠ ipProtoUdp := by
    rcases case with ⟨proto, -⟩ | ⟨proto, -⟩ <;> rw [proto] <;> decide
  have next : uncompressHc1Next frame minport
      ⟨write buf 0 [0x60#8, 0, 0, 0], 0 + ipv6Hdrlen, start⟩ =
        .ok ⟨fieldsBuf ipv6 buf, ipv6Hdrlen, start + 3⟩ := by
    unfold uncompressHc1Next fieldsBuf
    simp only [second, third, if_neg other, vtc, tcf, flow]
    rcases case with ⟨proto, rfl⟩ | ⟨proto, rfl⟩
    · rw [if_pos (by decide), proto, Nat.mod_eq_of_lt short]
      rfl
    · rw [if_neg (by decide), if_pos (by decide), proto, Nat.mod_eq_of_lt short]
      rfl
  have high : frame (start + 1) &&& 0xf0#8 = 0xf0#8 := by
    rw [second]
    rcases case with ⟨-, rfl⟩ | ⟨-, rfl⟩ <;> rfl
  rw [uncompressHc1_tail found high next (fieldsBuf_proto other), Nat.mod_eq_of_lt short]
  unfold headerBuf udpBuf compressedHdrlen
  rw [if_neg other, if_neg other]

theorem ports_byte {minport : ℕ} {src dest : BitVec 16}
    (src_low : minport ≤ src.toNat) (src_high : src.toNat < minport + 16)
    (dest_low : minport ≤ dest.toNat) (dest_high : dest.toNat < minport + 16) :
    let ports :=
      BitVec.ofNat 8 ((src.toNat - minport) <<< 4) + BitVec.ofNat 8 (dest.toNat - minport)
    BitVec.ofNat 16 (minport + (ports >>> 4).toNat) = src ∧
      BitVec.ofNat 16 (minport + (ports &&& 0x0f#8).toNat) = dest := by
  intro ports
  have value : ports.toNat = (src.toNat - minport) * 16 + (dest.toNat - minport) := by
    unfold ports
    rw [BitVec.toNat_add, BitVec.toNat_ofNat, BitVec.toNat_ofNat, Nat.shiftLeft_eq]
    omega
  have low : ∀ b : Byte, (b &&& 0x0f#8).toNat = b.toNat % 16 := by decide
  have src_lt := src.isLt
  have dest_lt := dest.isLt
  constructor
  · apply BitVec.eq_of_toNat_eq
    rw [BitVec.toNat_ofNat, BitVec.toNat_ushiftRight, value, Nat.shiftRight_eq_div_pow]
    omega
  apply BitVec.eq_of_toNat_eq
  rw [BitVec.toNat_ofNat, low, value]
  omega

/-- The fields are written in another order than by `sixlowpan_uncompresshdr_hc06`. -/
theorem write_udp_fields (ttl ports chksum : List Byte) (sized : made.length = 16) :
    write (write (write (write (write (write buf 6 [ipProtoUdp]) 7 ttl) 40 ports) 46 chksum) 8 made)
        24 made =
      write (write (write (write (write (write buf 7 ttl) 8 made) 24 made) 6 [ipProtoUdp]) 40 ports)
        46 chksum := by
  have single : [ipProtoUdp].length = 1 := rfl
  rw [write_comm _ (.inr (show 8 + made.length ≤ 46 by omega)),
    write_comm _ (.inr (show 8 + made.length ≤ 40 by omega)),
    write_comm _ (.inr (show 24 + made.length ≤ 46 by omega)),
    write_comm _ (.inr (show 24 + made.length ≤ 40 by omega)),
    write_comm _ (.inl (show 6 + [ipProtoUdp].length ≤ 7 by omega)),
    write_comm _ (.inl (show 6 + [ipProtoUdp].length ≤ 8 by omega)),
    write_comm _ (.inl (show 6 + [ipProtoUdp].length ≤ 24 by omega))]

theorem uncompressHc1_udp (isUdp : ipv6.proto = ipProtoUdp) (ports : portsCompressible minport udp)
    (received : At frame start ([dispatchHc1, 0xfb#8, 0xe0#8, ipv6.ttl,
      BitVec.ofNat 8 ((udp.srcport.toNat - minport) <<< 4) +
        BitVec.ofNat 8 (udp.destport.toNat - minport)] ++ bytes16 udp.udpchksum))
    (zero : ipv6.vtc = 0x60#8 ∧ ipv6.tcf = 0 ∧ ipv6.flow = 0)
    (found : sixlowpanIpfromaddr mac = some made) (short : start + 7 < 256) :
    sixlowpanUncompresshdrHc1 frame minport (some mac) 0 ioLen ⟨buf, 0, start⟩ =
      ⟨headerBuf ipv6 udp made made
        (lengthBytes 0 ioLen ((start + 7) % 256) (compressedHdrlen ipv6)) buf,
        compressedHdrlen ipv6, start + 7⟩ := by
  obtain ⟨-, second, third, fourth, fifth, sixth, seventh, -⟩ := received
  obtain ⟨vtc, tcf, flow⟩ := zero
  simp only [portsCompressible, decide_eq_true_eq] at ports
  obtain ⟨src, dest⟩ := ports_byte ports.1 ports.2.1 ports.2.2.1 ports.2.2.2
  have merged (m : Buf) : write (write m 40 (bytes16 udp.srcport)) 42 (bytes16 udp.destport) =
      write m 40 (bytes16 udp.srcport ++ bytes16 udp.destport) := write_append m _ rfl
  have next : uncompressHc1Next frame minport
      ⟨write buf 0 [0x60#8, 0, 0, 0], 0 + ipv6Hdrlen, start⟩ =
        .ok ⟨write (write (write (write (write buf 0 [0x60#8, 0, 0, 0]) 6 [ipProtoUdp]) 7
          [ipv6.ttl]) 40 (bytes16 udp.srcport ++ bytes16 udp.destport)) 46 (bytes16 udp.udpchksum),
          ipv6Hdrlen + udpHdrlen, start + 7⟩ := by
    unfold uncompressHc1Next
    simp only [second]
    rw [if_neg (by decide), if_neg (by decide), if_pos (by decide), if_pos (by decide), third,
      if_neg (by decide), fourth, fifth, src, dest, sixth, seventh, Nat.mod_eq_of_lt short, merged,
      Nat.zero_add]
    rfl
  have proto : write (write (write (write (write buf 0 [0x60#8, 0, 0, 0]) 6 [ipProtoUdp]) 7
      [ipv6.ttl]) 40 (bytes16 udp.srcport ++ bytes16 udp.destport)) 46 (bytes16 udp.udpchksum) 6 =
        some ipv6.proto := by
    rw [write_outside _ (.inl (by omega)), write_outside _ (.inl (by omega)),
      write_outside _ (.inl (by omega)), write_inside _ (by omega) (by simp), isUdp]
    rfl
  rw [uncompressHc1_tail found (by rw [second]; rfl) next proto, Nat.mod_eq_of_lt short,
    write_udp_fields _ _ _ (length_sixlowpanIpfromaddr found)]
  unfold headerBuf udpBuf fieldsBuf compressedHdrlen
  simp only [if_pos isUdp, vtc, tcf, flow]
  rfl

/-- Of a UDP packet with other ports the receiver takes the payload for all that follows the IPv6
header. -/
theorem uncompressHc1_lost (received : At frame start [dispatchHc1, 0xfa#8, ipv6.ttl])
    (short : start + 3 < 256) :
    ∃ buf', sixlowpanUncompresshdrHc1 frame minport (some mac) 0 ioLen ⟨buf, 0, start⟩ =
      ⟨buf', ipv6Hdrlen, start + 3⟩ := by
  obtain ⟨-, second, -⟩ := received
  have next : uncompressHc1Next frame minport
      ⟨write buf 0 [0x60#8, 0, 0, 0], 0 + ipv6Hdrlen, start⟩ =
        .ok ⟨write (write buf 0 [0x60#8, 0, 0, 0]) 6 [ipProtoUdp], ipv6Hdrlen, start + 3⟩ := by
    unfold uncompressHc1Next
    simp only [second]
    rw [if_neg (by decide), if_neg (by decide), if_pos (by decide), if_neg (by decide),
      Nat.mod_eq_of_lt short, Nat.zero_add]
  unfold sixlowpanUncompresshdrHc1
  simp only [next]
  exact ⟨_, rfl⟩

end Frame

/-! ## The round trip -/

/-- Both addresses are made from the link address of the sender, and the elided fields are as the
receiver sets them. -/
structure Hc1Kept (minport : ℕ) (srcmac : VarAddr) (p : Packet) : Prop where
  src : sixlowpanIpfromaddr srcmac = some p.ipv6.srcipaddr.bytes
  dest : sixlowpanIpfromaddr srcmac = some p.ipv6.destipaddr.bytes
  len : p.ipv6.len.toNat < 256
  udp : p.ipv6.proto = ipProtoUdp → portsCompressible minport p.udp ∧ p.udp.udplen = p.ipv6.len

def Hc1Sent (threshold : ℕ) (srcmac destmac : VarAddr) (p : Packet) : Prop :=
  threshold ≤ p.payload.length ∧ hc1Compressible srcmac destmac p.ipv6

variable {threshold start : ℕ} {radio : Radio} {destmac : VarAddr} {iob : Iob}

theorem queueFrames_at (sent : sixlowpanQueueFrames cfg threshold radio destmac p = some iob)
    {ret : CompressHdr} {header : List Byte} (compressed : (if threshold ≤ p.payload.length then
      sixlowpanCompresshdrHc1 cfg.minport radio.mac destmac p.ipv6 p.udp
    else (.inline, sixlowpanCompressIpv6hdr p.ipv6)) = (ret, header)) :
    let rest := (if ret = .inline then p.l4hdr else []) ++ p.payload
    iob.offset = radio.machdr.length ∧ At iob.data radio.machdr.length header ∧
      At iob.data (radio.machdr.length + header.length) rest ∧
      iob.len = radio.machdr.length + header.length + rest.length := by
  have taken : p.l4hdr.take (if ret = .inline then sixlowpanProtosize p else 0) =
      if ret = .inline then p.l4hdr else [] := by
    split
    · exact take_of_length_le (Nat.le_of_eq p.l4hdr_length)
    · rfl
  unfold sixlowpanQueueFrames at sent
  simp only [compressed, taken] at sent
  obtain ⟨-, made⟩ := ite_none_left_eq_some.mp sent
  obtain rfl := Option.some.inj made
  have whole := at_getD (radio.machdr ++ (header ++
    ((if ret = .inline then p.l4hdr else []) ++ p.payload))) 0
  rw [at_append, Nat.zero_add, at_append] at whole
  refine ⟨rfl, whole.2.1, whole.2.2, ?_⟩
  simp only [length_append]
  omega

theorem rebuilt_ipv6_iff (accum : s.radio.accumlen = 0) (start_eq : input.iob.offset = start)
    (received : At input.iob.data start (sixlowpanCompressIpv6hdr p.ipv6))
    (rest : At input.iob.data (start + 41) (p.l4hdr ++ p.payload))
    (len : input.iob.len = start + 41 + (p.l4hdr ++ p.payload).length) (short : start + 101 < 256) :
    (sixlowpanFrameProcess cfg input s).1.Rebuilt p ↔ p.bytes.length ≤ cfg.pktsize := by
  have l4hdr_le : p.l4hdr.length ≤ 60 := p.l4hdr_length ▸ protocolHdrlen_le _ _
  have total := p.len
  have limit := p.ipv6.len.isLt
  obtain ⟨l4hdrAt, payloadAt⟩ := (at_append _ _ _ _).mp rest
  have dispatch : input.iob.data start = dispatchIpv6 := received.1
  have headers : uncompressHeaders cfg input.metadata input.iob 0 true
      ⟨s.radio.buf, 0, input.iob.offset % 256⟩ =
        some (⟨write s.radio.buf 0 (p.ipv6.bytes ++ p.l4hdr), ipv6Hdrlen + p.l4hdr.length,
          start + 41 + p.l4hdr.length⟩, p.l4hdr.length) := by
    unfold uncompressHeaders
    simp only [start_eq, Nat.mod_eq_of_lt (show start < 256 by omega), dispatch]
    rw [if_neg fun both => absurd both.2 (by decide), if_neg fun both => absurd both.2 (by decide),
      if_pos trivial, if_pos trivial, uncompressIpv6hdr_eq received (by omega),
      uncompressIpv6proto_eq l4hdrAt (by omega)]
  rw [length_append] at len
  rw [rebuilt_iff accum start_eq dispatch (by decide) headers payloadAt (by dsimp only; omega)
      (by omega), write_append _ _ (by simp), p.length_bytes]
  exact ⟨And.left, fun fits => ⟨fits, rfl, written_write _ _ _⟩⟩

theorem uncompressHeaders_hc1 (start_eq : input.iob.offset = start) (short : start < 256)
    (enabled : cfg.hc1 = true) (dispatch : input.iob.data start = dispatchHc1)
    (headers : sixlowpanUncompresshdrHc1 input.iob.data cfg.minport input.metadata.srcaddr 0
      input.iob.len ⟨s.radio.buf, 0, start⟩ = h) :
    uncompressHeaders cfg input.metadata input.iob 0 true
      ⟨s.radio.buf, 0, input.iob.offset % 256⟩ = some (h, 0) := by
  unfold uncompressHeaders
  simp only [start_eq, Nat.mod_eq_of_lt short, dispatch]
  rw [if_neg fun both => absurd both.2 (by decide), if_pos ⟨enabled, trivial⟩, headers]

theorem written_hc1_iff {ioLen total : ℕ} (found : sixlowpanIpfromaddr mac = some made)
    (ports : p.ipv6.proto = ipProtoUdp → portsCompressible minport p.udp)
    (length : ioLen + compressedHdrlen p.ipv6 = total + ipv6Hdrlen + p.ipv6.len.toNat) :
    Written (headerBuf p.ipv6 p.udp made made
        (lengthBytes 0 ioLen (total % 256) (compressedHdrlen p.ipv6)) buf) 0
        (headerBytes p.ipv6 p.udp) ↔ Hc1Kept minport mac p := by
  have sized := length_sixlowpanIpfromaddr found
  rw [written_header_iff sized sized (length_lengthBytes _ _ _ _),
    lengthBytes_eq_iff (by decide) (by rw [if_pos rfl]; exact length)]
  constructor
  · rintro ⟨src, dest, len, udplen⟩
    exact ⟨by rw [found, src], by rw [found, dest], len.resolve_left fun ne => ne rfl,
      fun isUdp => ⟨ports isUdp, udplen isUdp⟩⟩
  · rintro ⟨src, dest, len, udp⟩
    exact ⟨Option.some.inj (found.symm.trans src), Option.some.inj (found.symm.trans dest),
      .inr len, fun isUdp => (udp isUdp).2⟩

theorem length_headerBytes (p : Packet) :
    (headerBytes p.ipv6 p.udp).length = compressedHdrlen p.ipv6 := by
  unfold headerBytes compressedHdrlen
  rw [length_append, Ipv6Hdr.length_bytes]
  split <;> rfl

theorem rebuilt_kept_iff (accum : s.radio.accumlen = 0) (offset : input.iob.offset = start)
    (enabled : cfg.hc1 = true) (dispatch : input.iob.data start = dispatchHc1) {n : ℕ}
    (short : start + n < 256) (found : sixlowpanIpfromaddr mac = some made)
    (ports : p.ipv6.proto = ipProtoUdp → portsCompressible cfg.minport p.udp)
    (headers : sixlowpanUncompresshdrHc1 input.iob.data cfg.minport input.metadata.srcaddr 0
      input.iob.len ⟨s.radio.buf, 0, start⟩ = ⟨headerBuf p.ipv6 p.udp made made
        (lengthBytes 0 input.iob.len ((start + n) % 256) (compressedHdrlen p.ipv6)) s.radio.buf,
        compressedHdrlen p.ipv6, start + n⟩)
    (received : At input.iob.data (start + n) p.rest)
    (len : input.iob.len = start + n + p.rest.length) :
    (sixlowpanFrameProcess cfg input s).1.Rebuilt p ↔
      p.bytes.length ≤ cfg.pktsize ∧ Hc1Kept cfg.minport mac p := by
  have bytes := p.bytes_eq
  have sized := length_headerBytes p
  have size : compressedHdrlen p.ipv6 + p.rest.length = ipv6Hdrlen + p.ipv6.len.toNat := by
    rw [← sized, ← length_append, ← bytes, p.length_bytes, p.len, Nat.add_assoc]
  have limit := p.ipv6.len.isLt
  have long : ipv6Hdrlen ≤ compressedHdrlen p.ipv6 := by
    unfold compressedHdrlen
    split <;> decide
  rw [rebuilt_iff accum offset dispatch (by decide)
      (uncompressHeaders_hc1 offset (by omega) enabled dispatch headers) received len (by omega),
    bytes, written_write_append (by rw [Nat.zero_add, sized]), length_append, sized,
    written_hc1_iff found ports (by omega)]
  simp only [true_and]

theorem compresshdrHc1_other (compressible : hc1Compressible srcmac destmac p.ipv6)
    (other : p.ipv6.proto ≠ ipProtoUdp) :
    ∃ encoding, sixlowpanCompresshdrHc1 minport srcmac destmac p.ipv6 p.udp =
        (.inline, [dispatchHc1, encoding, p.ipv6.ttl]) ∧
      (p.ipv6.proto = ipProtoIcmp6 ∧ encoding = 0xfc#8 ∨
        p.ipv6.proto = ipProtoTcp ∧ encoding = 0xfe#8) := by
  unfold sixlowpanCompresshdrHc1
  rw [if_pos compressible]
  rcases p.proto with isTcp | isUdp | isIcmp6
  · rw [if_neg (by rw [isTcp]; decide), if_pos isTcp]
    exact ⟨_, rfl, .inr ⟨isTcp, rfl⟩⟩
  · exact absurd isUdp other
  · rw [if_pos isIcmp6]
    exact ⟨_, rfl, .inl ⟨isIcmp6, rfl⟩⟩

theorem compresshdrHc1_udp (compressible : hc1Compressible srcmac destmac p.ipv6)
    (isUdp : p.ipv6.proto = ipProtoUdp) :
    sixlowpanCompresshdrHc1 minport srcmac destmac p.ipv6 p.udp =
      (.elided, if portsCompressible minport p.udp then
        [dispatchHc1, 0xfb#8, 0xe0#8, p.ipv6.ttl,
          BitVec.ofNat 8 ((p.udp.srcport.toNat - minport) <<< 4) +
            BitVec.ofNat 8 (p.udp.destport.toNat - minport)] ++ bytes16 p.udp.udpchksum
      else [dispatchHc1, 0xfa#8, p.ipv6.ttl]) := by
  unfold sixlowpanCompresshdrHc1
  rw [if_pos compressible, if_neg (by rw [isUdp]; decide), if_neg (by rw [isUdp]; decide)]
  split <;> rfl

/-- The receiver rebuilds the packet exactly when it fits the buffer and HC1 either does not
compress it or keeps it. -/
theorem hc1_transport_iff {condition : State → Input → Prop} (run : Run cfg condition s)
    (enabled : cfg.hc1 = true)
    (sent : sixlowpanQueueFrames cfg threshold radio destmac p = some iob) (now : BitVec 32)
    (malloc : Bool) (destaddr : Option VarAddr) :
    (sixlowpanFrameProcess cfg ⟨now, malloc, ⟨some radio.mac, destaddr⟩, iob⟩ s).1.Rebuilt p ↔
      p.bytes.length ≤ cfg.pktsize ∧
        (Hc1Sent threshold radio.mac destmac p → Hc1Kept cfg.minport radio.mac p) := by
  have accum := run.radio_accumlen
  have short := radio.machdr_short
  have limit := p.ipv6.len.isLt
  have total := p.len
  by_cases compressed : Hc1Sent threshold radio.mac destmac p
  · obtain ⟨long, compressible⟩ := compressed
    have at_frame {ret : CompressHdr} {header : List Byte}
        (result : sixlowpanCompresshdrHc1 cfg.minport radio.mac destmac p.ipv6 p.udp =
          (ret, header)) := queueFrames_at sent ((if_pos long).trans result)
    have fields := compressible
    simp only [hc1Compressible, decide_eq_true_eq] at fields
    obtain ⟨vtc, tcf, flow, -, based, -, -, -⟩ := fields
    have zero : p.ipv6.vtc = 0x60#8 ∧ p.ipv6.tcf = 0 ∧ p.ipv6.flow = 0 := ⟨vtc, tcf, flow⟩
    obtain ⟨made, found⟩ := exists_ipfromaddr based
    simp only [Hc1Sent, long, compressible, and_self, true_implies]
    by_cases isUdp : p.ipv6.proto = ipProtoUdp
    · obtain ⟨offset, header, rest, len⟩ := at_frame (compresshdrHc1_udp compressible isUdp)
      have behind : p.rest = p.payload := if_pos isUdp
      by_cases ports : portsCompressible cfg.minport p.udp = true
      · rw [if_pos ports] at header rest len
        exact rebuilt_kept_iff accum offset enabled header.1 (show _ + 7 < 256 by omega) found
          (fun _ => ports) (uncompressHc1_udp isUdp ports header zero found (by omega))
          (behind ▸ rest) (behind ▸ len)
      -- The packet comes without its UDP header, eight bytes too short.
      rw [if_neg ports] at header rest len
      obtain ⟨buf, headers⟩ := uncompressHc1_lost header (show _ + 3 < 256 by omega)
      rw [rebuilt_iff accum offset header.1 (by decide)
        (uncompressHeaders_hc1 offset (by omega) enabled header.1 headers) rest len (by
          rw [length_append]; simp; omega), p.length_bytes, Packet.length_udp isUdp]
      constructor
      · rintro ⟨-, size, -⟩
        simp at size
      · rintro ⟨-, kept⟩
        exact absurd (kept.udp isUdp).1 ports
    obtain ⟨encoding, result, case⟩ := compresshdrHc1_other compressible isUdp
    obtain ⟨offset, header, rest, len⟩ := at_frame result
    have behind : p.rest = p.l4hdr ++ p.payload := if_neg isUdp
    exact rebuilt_kept_iff accum offset enabled header.1 (show _ + 3 < 256 by omega) found
      (fun yes => absurd yes isUdp) (uncompressHc1_other header case zero found (by omega))
      (behind ▸ rest) (behind ▸ len)
  have uncompressed : (if threshold ≤ p.payload.length then
      sixlowpanCompresshdrHc1 cfg.minport radio.mac destmac p.ipv6 p.udp
    else (.inline, sixlowpanCompressIpv6hdr p.ipv6)) =
      (.inline, sixlowpanCompressIpv6hdr p.ipv6) := by
    split
    · rename_i long
      unfold sixlowpanCompresshdrHc1
      rw [if_neg fun compressible => compressed ⟨long, compressible⟩]
    · rfl
  obtain ⟨offset, header, rest, len⟩ := queueFrames_at sent uncompressed
  have size : (sixlowpanCompressIpv6hdr p.ipv6).length = 41 := by
    unfold sixlowpanCompressIpv6hdr
    rw [length_cons, Ipv6Hdr.length_bytes]
    rfl
  rw [size] at rest len
  rw [rebuilt_ipv6_iff accum offset header rest len short]
  simp [compressed]

/-! ## Three packets -/

/-- A sender with a MAC header of nine bytes. -/
def node1 : Radio :=
  { mac := [0, 1], machdr := [0x41, 0x88, 0, 0xcd, 0xab, 0, 2, 0, 1], machdr_short := by decide
    framelen := 125 }

def hc1Config : Config := { plain with hc1 := true }

/-- A UDP packet of eight bytes from node `00:01`, with the last byte of the destination and the
ports given. -/
def udpPacket (node srcport destport : Byte) : Packet :=
  { ipv6 :=
      { vtc := 0x60#8, tcf := 0, flow := 0, len := 16, proto := ipProtoUdp, ttl := 64
        srcipaddr := ⟨[0xfe, 0x80, 0, 0, 0, 0, 0, 0, 0, 0, 0, 0xff, 0xfe, 0, 0, 1], rfl⟩
        destipaddr := ⟨[0xfe, 0x80, 0, 0, 0, 0, 0, 0, 0, 0, 0, 0xff, 0xfe, 0, 0, node], rfl⟩ }
    l4hdr := [0xf0, srcport, 0xf0, destport, 0, 16, 0x12, 0x34]
    payload := [1, 2, 3, 4, 5, 6, 7, 8]
    proto := .inr (.inl rfl)
    l4hdr_length := rfl
    tcp_length := fun isTcp => absurd (show ipProtoUdp = ipProtoTcp from isTcp) (by decide)
    len := rfl }

def delivered (destmac : VarAddr) (p : Packet) : Result :=
  match sixlowpanQueueFrames hc1Config 0 node1 destmac p with
  | none => .incomplete
  | some iob => (sixlowpanFrameProcess hc1Config ⟨0, true, ⟨some [0, 1], some destmac⟩, iob⟩
      (sixlowpanReassInitialize 1)).1

/-- A node whose link address is the byte `01` has the address that the receiver makes for both. -/
theorem hc1_transport_iff_byte :
    Hc1Sent 0 node1.mac [1] (udpPacket 1 0xb1#8 0xb2#8) ∧
      (delivered [1] (udpPacket 1 0xb1#8 0xb2#8)).Rebuilt (udpPacket 1 0xb1#8 0xb2#8) := by
  have fits : (sixlowpanQueueFrames hc1Config 0 node1 [1] (udpPacket 1 0xb1#8 0xb2#8)).isSome := by
    decide
  obtain ⟨iob, sent⟩ := isSome_iff_exists.mp fits
  have run : Run hc1Config (fun _ _ => True) (sixlowpanReassInitialize 1) := .initial 1
  unfold delivered
  rw [sent]
  exact ⟨⟨by decide, by decide⟩, (hc1_transport_iff run rfl sent 0 true (some [1])).mpr
    ⟨by decide, fun _ => ⟨by decide, by decide, by decide, by decide⟩⟩⟩

/-- The destination comes back as the source, and with other ports the UDP header is missing. -/
theorem hc1_loses_packets :
    ¬(delivered [0, 2] (udpPacket 2 0xb1#8 0xb2#8)).Rebuilt (udpPacket 2 0xb1#8 0xb2#8) ∧
      ¬(delivered [0, 2] (udpPacket 2 0xb1#8 0xc2#8)).Rebuilt (udpPacket 2 0xb1#8 0xc2#8) := by
  decide

end NuttxRtos.Sixlowpan
