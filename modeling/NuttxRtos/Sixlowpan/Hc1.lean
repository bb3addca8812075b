import NuttxRtos.Sixlowpan.Hc06

/-!
# HC1 header compression

`sixlowpan_compresshdr_hc1` and `sixlowpan_uncompresshdr_hc1` of `sixlowpan_hc1.c`, with the address
that `sixlowpan_ipfromaddr` makes from a link address. HC1 elides everything but the hop limit, or
compresses nothing.
-/

namespace NuttxRtos.Sixlowpan

open Segment

/-! ## Addresses -/

def sixlowpanIslinklocal (a : Ipv6Addr) : Bool := a.word 0 = 0xfe80#16

def sixlowpanIpfrombyte (addr : VarAddr) : List Byte :=
  [0xfe80#16, 0, 0, 0, 0, 0x00ff#16, 0xfe00#16, (addr.getD 0 0).setWidth 16].flatMap bytes16

def sixlowpanIpfromsaddr (saddr : VarAddr) : List Byte :=
  [0xfe80#16, 0, 0, 0, 0, 0x00ff#16, 0xfe00#16, macWord saddr 0].flatMap bytes16

/-- The U/L bit is inverted. -/
def sixlowpanIpfromeaddr (eaddr : VarAddr) : List Byte :=
  [0xfe80#16, 0, 0, 0, macWord eaddr 0 ^^^ 0x0200#16, macWord eaddr 2, macWord eaddr 4,
    macWord eaddr 6].flatMap bytes16

/-- The address made from a link address; `none` when the length is not supported and nothing is
written. -/
def sixlowpanIpfromaddr (addr : VarAddr) : Option (List Byte) :=
  match addr.length with
  | 1 => some (sixlowpanIpfrombyte addr)
  | 2 => some (sixlowpanIpfromsaddr addr)
  | 8 => some (sixlowpanIpfromeaddr addr)
  | _ => none

theorem length_sixlowpanIpfromaddr {addr : VarAddr} {bytes : List Byte}
    (made : sixlowpanIpfromaddr addr = some bytes) : bytes.length = 16 := by
  unfold sixlowpanIpfromaddr at made
  split at made <;> first | cases made; rfl | cases made

/-! ## Compression -/

/-- What a compressor says of the header behind the IPv6 header: `COMPRESS_HDR_INLINE` or
`COMPRESS_HDR_ELIDED`. -/
inductive CompressHdr where
  | inline
  | elided
  deriving DecidableEq

def dispatchIpv6 : Byte := 0x41#8

def dispatchHc1 : Byte := 0x42#8

def sixlowpanCompressIpv6hdr (ipv6 : Ipv6Hdr) : List Byte := dispatchIpv6 :: ipv6.bytes

/-- All the assumptions for full compression are valid. -/
def hc1Compressible (srcmac destmac : VarAddr) (ipv6 : Ipv6Hdr) : Bool :=
  ipv6.vtc = 0x60#8 ∧ ipv6.tcf = 0 ∧ ipv6.flow = 0 ∧
    sixlowpanIslinklocal ipv6.srcipaddr ∧ sixlowpanIsmacbased ipv6.srcipaddr srcmac ∧
    sixlowpanIslinklocal ipv6.destipaddr ∧ sixlowpanIsmacbased ipv6.destipaddr destmac ∧
    (ipv6.proto = ipProtoTcp ∨ ipv6.proto = ipProtoUdp ∨ ipv6.proto = ipProtoIcmp6)

/-- Both ports are among the sixteen from `CONFIG_NET_6LOWPAN_MINPORT` on. -/
def portsCompressible (minport : ℕ) (udp : UdpHdr) : Bool :=
  minport ≤ udp.srcport.toNat ∧ udp.srcport.toNat < minport + 16 ∧
    minport ≤ udp.destport.toNat ∧ udp.destport.toNat < minport + 16

/-- The bytes written from `g_frame_hdrlen` on, which moves behind them. -/
def sixlowpanCompresshdrHc1 (minport : ℕ) (srcmac destmac : VarAddr) (ipv6 : Ipv6Hdr)
    (udp : UdpHdr) : CompressHdr × List Byte :=
  if hc1Compressible srcmac destmac ipv6 then
    if ipv6.proto = ipProtoIcmp6 then (.inline, [dispatchHc1, 0xfc#8, ipv6.ttl])
    else if ipv6.proto = ipProtoTcp then (.inline, [dispatchHc1, 0xfe#8, ipv6.ttl])
    else if portsCompressible minport udp then
      (.elided, [dispatchHc1, 0xfb#8, 0xe0#8, ipv6.ttl,
        BitVec.ofNat 8 ((udp.srcport.toNat - minport) <<< 4) +
          BitVec.ofNat 8 (udp.destport.toNat - minport)] ++ bytes16 udp.udpchksum)
    -- The UDP header is not compressed here, and yet it is said to be elided.
    else (.elided, [dispatchHc1, 0xfa#8, ipv6.ttl])
  else (.inline, sixlowpanCompressIpv6hdr ipv6)

/-! ## Decompression -/

variable (frame : ℕ → Byte)

/-- Next header, hop limit and UDP header. The error is the state in which the decompressor returns
early, with an encoding that it does not support. -/
def uncompressHc1Next (minport : ℕ) (h : Headers) : Except Headers Headers :=
  let hc1 := h.frameHdrlen
  let encoding := frame (hc1 + 1)
  if encoding &&& 0x06#8 = 0x04#8 then
    .ok { h with
      buf := write (write h.buf 6 [ipProtoIcmp6]) 7 [frame (hc1 + 2)]
      frameHdrlen := (hc1 + 3) % 256 }
  else if encoding &&& 0x06#8 = 0x06#8 then
    .ok { h with
      buf := write (write h.buf 6 [ipProtoTcp]) 7 [frame (hc1 + 2)]
      frameHdrlen := (hc1 + 3) % 256 }
  else if encoding &&& 0x06#8 = 0x02#8 then
    let buf := write h.buf 6 [ipProtoUdp]
    if encoding &&& 0x01#8 ≠ 0 then
      if frame (hc1 + 2) ≠ 0xe0#8 then .error { h with buf := buf }
      else
        let ports := frame (hc1 + 4)
        let buf := write buf 7 [frame (hc1 + 3)]
        let buf := write buf 40 (bytes16 (BitVec.ofNat 16 (minport + (ports >>> 4).toNat)))
        let buf := write buf 42 (bytes16 (BitVec.ofNat 16 (minport + (ports &&& 0x0f#8).toNat)))
        let buf := write buf 46 [frame (hc1 + 5), frame (hc1 + 6)]
        .ok { buf := buf, uncompHdrlen := h.uncompHdrlen + udpHdrlen
              frameHdrlen := (hc1 + 7) % 256 }
    -- The hop limit is skipped and not set.
    else .ok { h with buf := buf, frameHdrlen := (hc1 + 3) % 256 }
  else .error h

def writeIpfromaddr (addr : Option VarAddr) (offset : ℕ) (buf : Buf) : Buf :=
  match addr.bind sixlowpanIpfromaddr with
  | none => buf
  | some bytes => write buf offset bytes

/-- `srcaddr` is what `sixlowpan_extract_srcaddr` gets from the metadata; the destination address is
made from it as well. -/
def sixlowpanUncompresshdrHc1 (minport : ℕ) (srcaddr : Option VarAddr) (iplen ioLen : ℕ)
    (h : Headers) : Headers :=
  let encoding := frame (h.frameHdrlen + 1)
  let h := { h with
    buf := write h.buf 0 [0x60#8, 0, 0, 0], uncompHdrlen := h.uncompHdrlen + ipv6Hdrlen }
  match uncompressHc1Next frame minport h with
  | .error h => h
  | .ok h =>
    let buf := h.buf
    let buf := if encoding &&& 0xc0#8 = 0xc0#8 then writeIpfromaddr srcaddr 8 buf else buf
    let buf := if encoding &&& 0x30#8 = 0x30#8 then writeIpfromaddr srcaddr 24 buf else buf
    let len := lengthBytes iplen ioLen h.frameHdrlen h.uncompHdrlen
    let buf := write buf 4 len
    { h with buf := if Buf.get buf 6 = ipProtoUdp then write buf 44 len else buf }

end NuttxRtos.Sixlowpan
