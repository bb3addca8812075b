import NuttxRtos.Sixlowpan.Address

/-!
# IPHC header compression

`sixlowpan_compresshdr_hc06` and `sixlowpan_uncompresshdr_hc06` of `sixlowpan_hc06.c`. What the
compressor writes is the list of the bytes from `fptr + g_frame_hdrlen` on. The decompressor reads
a frame, which is a function of the index into `io_data`, and writes the headers to a buffer in
which `none` marks a byte that was not written since the buffer was cleared.
-/

namespace NuttxRtos.Sixlowpan

open Segment

/-- A packet buffer, `rb_buf`. -/
abbrev Buf := ℕ → Option Byte

structure AddrContext where
  used : Byte
  number : Byte
  pfx : List Byte
  sized : pfx.length = 8

def findAddrcontextByNumber (contexts : List AddrContext) (number : Byte) : Option AddrContext :=
  contexts.find? fun c => c.used = 1 ∧ c.number = number

def findAddrcontextByPrefix (contexts : List AddrContext) (ipaddr : Ipv6Addr) :
    Option AddrContext :=
  contexts.find? fun c => c.used = 1 ∧ c.pfx = ipaddr.bytes.take 8

/-! ## Compression -/

def compressIpaddr (ipaddr : Ipv6Addr) (bitpos : ℕ) : Byte × List Byte :=
  if isIid16bitCompressable ipaddr then ((2 : Byte) <<< bitpos, ipaddr.bytes.drop 14)
  else ((1 : Byte) <<< bitpos, ipaddr.bytes.drop 8)

def compressTagaddr (ipaddr : Ipv6Addr) (macaddr : VarAddr) (bitpos : ℕ) : Byte × List Byte :=
  if sixlowpanIsmacbased ipaddr macaddr then ((3 : Byte) <<< bitpos, [])
  else compressIpaddr ipaddr bitpos

def compressLaddr (srcipaddr : Ipv6Addr) (macaddr : VarAddr) (bitpos : ℕ) : Byte × List Byte :=
  if sixlowpanIsmacbased srcipaddr macaddr then ((3 : Byte) <<< bitpos, [])
  else compressIpaddr srcipaddr bitpos

/-- Traffic class and flow label: the bits of `iphc0` and what goes inline. -/
def compressTc (ipv6 : Ipv6Hdr) : Byte × List Byte :=
  let tmp := (ipv6.vtc <<< 4) ||| (ipv6.tcf >>> 4)
  let tmp := ((tmp &&& 0x03#8) <<< 6) ||| (tmp >>> 2)
  if ipv6.tcf &&& 0x0f#8 = 0 ∧ ipv6.flow = 0 then
    if ipv6.vtc &&& 0x0f#8 = 0 ∧ ipv6.tcf &&& 0xf0#8 = 0 then (0x18#8, []) else (0x10#8, [tmp])
  else if ipv6.vtc &&& 0x0f#8 = 0 ∧ ipv6.tcf &&& 0xf0#8 = 0 then
    (0x08#8, ((tmp &&& 0xc0#8) ||| (ipv6.tcf &&& 0x0f#8)) :: bytes16 ipv6.flow)
  else (0x00#8, tmp :: ipv6.tcf :: bytes16 ipv6.flow)

def compressNh (ipv6 : Ipv6Hdr) : Byte × List Byte :=
  if ipv6.proto = ipProtoUdp then (0x04#8, []) else (0x00#8, [ipv6.proto])

def compressHlim (ipv6 : Ipv6Hdr) : Byte × List Byte :=
  if ipv6.ttl = 1 then (0x01#8, []) else if ipv6.ttl = 64 then (0x02#8, [])
  else if ipv6.ttl = 255 then (0x03#8, []) else (0x00#8, [ipv6.ttl])

def isLinklocalPrefix (a : Ipv6Addr) : Bool :=
  netIsAddrLinklocal a ∧ a.word 1 = 0 ∧ a.word 2 = 0 ∧ a.word 3 = 0

/-- Source address: the bits of `iphc1`, those of `iphc[2]`, and what goes inline. -/
def compressSrcipaddr (saddrcontext : Option AddrContext) (srcmac : VarAddr) (a : Ipv6Addr) :
    Byte × Byte × List Byte :=
  if netIsAddrUnspecified a then (0x40#8, 0, [])
  else match saddrcontext with
    | some context =>
      let (tag, inline) := compressLaddr a srcmac 4
      (0x40#8 ||| tag, context.number <<< 4, inline)
    | none =>
      if isLinklocalPrefix a then
        let (tag, inline) := compressLaddr a srcmac 4
        (tag, 0, inline)
      else (0x00#8, 0, a.bytes)

def compressDestipaddr (daddrcontext : Option AddrContext) (destmac : VarAddr) (a : Ipv6Addr) :
    Byte × Byte × List Byte :=
  if netIsAddrMcast a then
    if isMcastaddrCompressable8 a then (0x08#8 ||| 0x03#8, 0, a.bytes.drop 15)
    else if isMcastaddrCompressable32 a then
      (0x08#8 ||| 0x02#8, 0, a.bytes.getD 1 0 :: a.bytes.drop 13)
    else if isMcastaddrCompressable48 a then
      (0x08#8 ||| 0x01#8, 0, a.bytes.getD 1 0 :: a.bytes.drop 11)
    else (0x08#8 ||| 0x00#8, 0, a.bytes)
  else match daddrcontext with
    | some context =>
      let (tag, inline) := compressTagaddr a destmac 0
      (0x04#8 ||| tag, context.number, inline)
    | none =>
      if isLinklocalPrefix a then
        let (tag, inline) := compressTagaddr a destmac 0
        (tag, 0, inline)
      else (0x00#8, 0, a.bytes)

def compressPorts (udp : UdpHdr) : List Byte :=
  if udp.srcport &&& 0xfff0#16 = 0xf0b0#16 ∧ udp.destport &&& 0xfff0#16 = 0xf0b0#16 then
    [0xf3#8, ((udp.srcport - 0xf0b0#16) <<< 4).setWidth 8 + (udp.destport - 0xf0b0#16).setWidth 8]
  else if udp.destport &&& 0xff00#16 = 0xf000#16 then
    0xf1#8 :: bytes16 udp.srcport ++ [(udp.destport - 0xf000#16).setWidth 8]
  else if udp.srcport &&& 0xff00#16 = 0xf000#16 then
    0xf2#8 :: (udp.srcport - 0xf000#16).setWidth 8 :: bytes16 udp.destport
  else 0xf0#8 :: bytes16 udp.srcport ++ bytes16 udp.destport

/-- The checksum is always inline. -/
def compressUdp (udp : UdpHdr) : List Byte := compressPorts udp ++ bytes16 udp.udpchksum

def sixlowpanCompresshdrHc06 (contexts : List AddrContext) (srcmac destmac : VarAddr)
    (ipv6 : Ipv6Hdr) (udp : UdpHdr) : List Byte :=
  let daddrcontext := findAddrcontextByPrefix contexts ipv6.destipaddr
  let saddrcontext := findAddrcontextByPrefix contexts ipv6.srcipaddr
  let cid := daddrcontext.isSome || saddrcontext.isSome
  let tc := compressTc ipv6
  let nh := compressNh ipv6
  let hlim := compressHlim ipv6
  let src := compressSrcipaddr saddrcontext srcmac ipv6.srcipaddr
  let dest := compressDestipaddr daddrcontext destmac ipv6.destipaddr
  let iphc0 := 0x60#8 ||| tc.1 ||| nh.1 ||| hlim.1
  let iphc1 := (if cid then 0x80#8 else 0) ||| src.1 ||| dest.1
  iphc0 :: iphc1 :: (if cid then [src.2.1 ||| dest.2.1] else []) ++ tc.2 ++ nh.2 ++ hlim.2 ++
    src.2.2 ++ dest.2.2 ++ if ipv6.proto = ipProtoUdp then compressUdp udp else []

/-- `g_uncomp_hdrlen` after the compression. -/
def compressedHdrlen (ipv6 : Ipv6Hdr) : ℕ :=
  if ipv6.proto = ipProtoUdp then ipv6Hdrlen + udpHdrlen else ipv6Hdrlen

/-! ## Decompression -/

def uncLlconf : List (BitVec 16) := [0x000f#16, 0x0028#16, 0x0022#16, 0x0120#16]

def uncCtxconf : List (BitVec 16) := [0x0000#16, 0x0088#16, 0x0082#16, 0x0180#16]

def uncMxconf : List (BitVec 16) := [0x020f#16, 0x0225#16, 0x0223#16, 0x0221#16]

def llprefix : List Byte := [0xfe#8, 0x80#8]

def ttlValues : List Byte := [0, 1, 64, 255]

def put (l : List Byte) (i : ℕ) (values : List Byte) : List Byte :=
  l.take i ++ values ++ l.drop (i + values.length)

/-- `uncompress_addr`: the bytes of the address, and the new `g_hc06ptr`. `PREFLEN` and `POSTLEN`
are the two low nibbles of `prefpost`, `MACBASED` is bit 8 and `ZEROPAD` bit 9. -/
def uncompressAddr (addr : VarAddr) (pfx : List Byte) (prefpost : BitVec 16) (frame : ℕ → Byte)
    (hc06ptr : ℕ) : List Byte × ℕ :=
  let usemac := prefpost &&& 0x0100#16 ≠ 0
  let prefcount := ((prefpost &&& 0x00f0#16) >>> 4).toNat
  let postcount := (prefpost &&& 0x000f#16).toNat
  let prefcount := if prefcount = 15 then 16 else prefcount
  let postcount := if postcount = 15 then 16 else postcount
  let src : ℕ → Byte := if usemac then fun i => addr.getD i 0 else fun i => frame (hc06ptr + i)
  let postcount := if usemac ∧ postcount = 0 then addr.length else postcount
  -- The prefix, and zeros up to the rest.
  let ipaddr := pfx.take prefcount ++ List.replicate (16 - (prefcount + postcount)) 0
  if postcount = 0 then (ipaddr, hc06ptr)
  else
    let ipaddr := if postcount ≤ 2 ∧ prefcount < 11 ∧ prefpost &&& 0x0200#16 = 0 then
      put ipaddr 10 [0x00#8, 0xff#8, 0xfe#8, 0x00#8] else ipaddr
    let destndx := 8 - postcount / 2
    let odd := postcount % 2
    -- An odd byte fills the low half of a word of its own.
    let ipaddr := if odd = 1 then put ipaddr (2 * (destndx - 1)) [0, src 0] else ipaddr
    let ipaddr := put ipaddr (2 * destndx)
      ((List.range (2 * (8 - destndx))).map fun i => src (odd + i))
    let ipaddr := if usemac ∧ postcount = 8 then put ipaddr 8 [ipaddr.getD 8 0 ^^^ 0x02#8]
      else ipaddr
    (ipaddr, if usemac then hc06ptr else hc06ptr + postcount)

/-- What the decompressor has written, and where it reads next. -/
structure Hc06State where
  buf : Buf
  hc06ptr : ℕ

variable (frame : ℕ → Byte)

def uncompressTc (iphc0 : Byte) (s : Hc06State) : Hc06State :=
  if iphc0 &&& 0x10#8 = 0 then
    if iphc0 &&& 0x08#8 = 0 then
      let tmp := frame s.hc06ptr
      let tcf := frame (s.hc06ptr + 1)
      { buf := write s.buf 0 [0x60#8 ||| ((tmp >>> 2) &&& 0x0f#8),
          ((tmp >>> 2) &&& 0x30#8) ||| (tmp <<< 6) ||| (tcf &&& 0x0f#8),
          frame (s.hc06ptr + 2), frame (s.hc06ptr + 3)]
        hc06ptr := s.hc06ptr + 4 }
    else
      let tmp := frame s.hc06ptr
      { buf := write s.buf 0 [0x60#8, (tmp &&& 0x0f#8) ||| ((tmp >>> 2) &&& 0x30#8),
          frame (s.hc06ptr + 1), frame (s.hc06ptr + 2)]
        hc06ptr := s.hc06ptr + 3 }
  else
    if iphc0 &&& 0x08#8 = 0 then
      let tmp := frame s.hc06ptr
      { buf := write s.buf 0 [0x60#8 ||| ((tmp >>> 2) &&& 0x0f#8),
          ((tmp <<< 6) &&& 0xc0#8) ||| ((tmp >>> 2) &&& 0x30#8), 0, 0]
        hc06ptr := s.hc06ptr + 1 }
    else { s with buf := write s.buf 0 [0x60#8, 0, 0, 0] }

def uncompressNh (iphc0 : Byte) (s : Hc06State) : Hc06State :=
  if iphc0 &&& 0x04#8 = 0 then
    { buf := write s.buf 6 [frame s.hc06ptr], hc06ptr := s.hc06ptr + 1 }
  else s

def uncompressHlim (iphc0 : Byte) (s : Hc06State) : Hc06State :=
  if iphc0 &&& 0x03#8 ≠ 0 then
    { s with buf := write s.buf 7 [ttlValues.getD (iphc0 &&& 0x03#8).toNat 0] }
  else { buf := write s.buf 7 [frame s.hc06ptr], hc06ptr := s.hc06ptr + 1 }

def Hc06State.putAddr (s : Hc06State) (offset : ℕ) (r : List Byte × ℕ) : Hc06State :=
  { buf := write s.buf offset r.1, hc06ptr := r.2 }

/-- The source address; `none` when its context is unknown. -/
def uncompressSrcipaddr (contexts : List AddrContext) (addr : VarAddr) (iphc1 iphc2 : Byte)
    (s : Hc06State) : Option Hc06State :=
  let tmp := ((iphc1 &&& 0x30#8) >>> 4) &&& 0x03#8
  if iphc1 &&& 0x40#8 ≠ 0 then
    let sci := if iphc1 &&& 0x80#8 ≠ 0 then iphc2 >>> 4 else 0
    if tmp ≠ 0 then
      match findAddrcontextByNumber contexts sci with
      | none => none
      | some context => some (s.putAddr 8
          (uncompressAddr addr context.pfx (uncCtxconf.getD tmp.toNat 0) frame s.hc06ptr))
    else some (s.putAddr 8 (uncompressAddr addr [] (uncCtxconf.getD tmp.toNat 0) frame s.hc06ptr))
  else some (s.putAddr 8
    (uncompressAddr addr llprefix (uncLlconf.getD tmp.toNat 0) frame s.hc06ptr))

def uncompressDestipaddr (contexts : List AddrContext) (addr : VarAddr) (iphc1 iphc2 : Byte)
    (s : Hc06State) : Option Hc06State :=
  let tmp := iphc1 &&& 0x03#8
  if iphc1 &&& 0x08#8 ≠ 0 then
    -- Multicast with a context is not implemented.
    if iphc1 &&& 0x04#8 ≠ 0 then some s
    else if 0 < tmp.toNat ∧ tmp.toNat < 3 then
      some (s.putAddr 24 (uncompressAddr addr [0xff#8, frame s.hc06ptr]
        (uncMxconf.getD tmp.toNat 0) frame (s.hc06ptr + 1)))
    else some (s.putAddr 24
      (uncompressAddr addr [0xff#8, 0x02#8] (uncMxconf.getD tmp.toNat 0) frame s.hc06ptr))
  else if iphc1 &&& 0x04#8 ≠ 0 then
    let dci := if iphc1 &&& 0x80#8 ≠ 0 then iphc2 &&& 0x0f#8 else 0
    match findAddrcontextByNumber contexts dci with
    | none => none
    | some context => some (s.putAddr 24
        (uncompressAddr addr context.pfx (uncCtxconf.getD tmp.toNat 0) frame s.hc06ptr))
  else some (s.putAddr 24
    (uncompressAddr addr llprefix (uncLlconf.getD tmp.toNat 0) frame s.hc06ptr))

def uncompressUdp (s : Hc06State) : Hc06State :=
  let nhc := frame s.hc06ptr
  let buf := write s.buf 6 [ipProtoUdp]
  let (ports, ptr) : List Byte × ℕ :=
    if nhc &&& 0xf3#8 = 0xf0#8 then
      ([frame (s.hc06ptr + 1), frame (s.hc06ptr + 2), frame (s.hc06ptr + 3), frame (s.hc06ptr + 4)],
        s.hc06ptr + 5)
    else if nhc &&& 0xf3#8 = 0xf1#8 then
      ([frame (s.hc06ptr + 1), frame (s.hc06ptr + 2)] ++
        bytes16 (0xf000#16 + (frame (s.hc06ptr + 3)).setWidth 16), s.hc06ptr + 4)
    else if nhc &&& 0xf3#8 = 0xf2#8 then
      (bytes16 (0xf000#16 + (frame (s.hc06ptr + 1)).setWidth 16) ++
        [frame (s.hc06ptr + 2), frame (s.hc06ptr + 3)], s.hc06ptr + 4)
    else
      (bytes16 (0xf0b0#16 + (frame (s.hc06ptr + 1) >>> 4).setWidth 16) ++
        bytes16 (0xf0b0#16 + (frame (s.hc06ptr + 1) &&& 0x0f#8).setWidth 16), s.hc06ptr + 2)
  let buf := write buf 40 ports
  if nhc &&& 0x04#8 = 0 then
    { buf := write buf 46 [frame ptr, frame (ptr + 1)], hc06ptr := ptr + 2 }
  else { buf := buf, hc06ptr := ptr }

/-- The buffer, `g_uncomp_hdrlen` and `g_frame_hdrlen`. -/
structure Headers where
  buf : Buf
  uncompHdrlen : ℕ
  frameHdrlen : ℕ

/-- The bytes of the length field: of a frame on its own the length of the rest of the frame, and
else from the size in the fragment header. -/
def lengthBytes (iplen ioLen frameHdrlen uncompHdrlen : ℕ) : List Byte :=
  if iplen = 0 then
    [0, BitVec.ofInt 8 ((ioLen : ℤ) - frameHdrlen + uncompHdrlen - ipv6Hdrlen)]
  else bytes16 (BitVec.ofInt 16 ((iplen : ℤ) - ipv6Hdrlen))

theorem length_lengthBytes (iplen ioLen frameHdrlen uncompHdrlen : ℕ) :
    (lengthBytes iplen ioLen frameHdrlen uncompHdrlen).length = 2 := by
  unfold lengthBytes
  split <;> rfl

def Buf.get (buf : Buf) (i : ℕ) : Byte := (buf i).getD 0

/-- What follows the addresses: the next header, and the length fields. -/
def uncompressRest (iphc0 : Byte) (iplen ioLen : ℕ) (h : Headers) (s : Hc06State) : Headers :=
  let udp : Bool := iphc0 &&& 0x04#8 ≠ 0 ∧ frame s.hc06ptr &&& 0xf8#8 = 0xf0#8
  let uncompHdrlen := h.uncompHdrlen + ipv6Hdrlen + if udp then udpHdrlen else 0
  let s := if udp then uncompressUdp frame s else s
  let frameHdrlen := s.hc06ptr % 256
  let len := lengthBytes iplen ioLen frameHdrlen uncompHdrlen
  let buf := write s.buf 4 len
  let buf := if Buf.get buf 6 = ipProtoUdp then write buf 44 len else buf
  { buf := buf, uncompHdrlen := uncompHdrlen, frameHdrlen := frameHdrlen }

/-- `srcaddr` and `destaddr` are what `sixlowpan_extract_srcaddr` and `sixlowpan_extract_destaddr`
get from the metadata. -/
def sixlowpanUncompresshdrHc06 (contexts : List AddrContext) (srcaddr destaddr : Option VarAddr)
    (iplen ioLen : ℕ) (h : Headers) : Headers :=
  let iphc := h.frameHdrlen
  let iphc0 := frame iphc
  let iphc1 := frame (iphc + 1)
  let iphc2 := frame (iphc + 2)
  let s : Hc06State :=
    { buf := h.buf, hc06ptr := if iphc1 &&& 0x80#8 ≠ 0 then iphc + 3 else iphc + 2 }
  let s := uncompressHlim frame iphc0 (uncompressNh frame iphc0 (uncompressTc frame iphc0 s))
  match srcaddr.bind fun addr => uncompressSrcipaddr frame contexts addr iphc1 iphc2 s with
  | none => { h with buf := s.buf }
  | some s =>
    match destaddr.bind fun addr => uncompressDestipaddr frame contexts addr iphc1 iphc2 s with
    | none => { h with buf := s.buf }
    | some s => uncompressRest frame iphc0 iplen ioLen h s

end NuttxRtos.Sixlowpan
