import NuttxRtos.Sixlowpan.Hc1

/-!
# Receiving frames

`sixlowpan_frame_process` of `sixlowpan_input.c` on the reassembly buffers of
`sixlowpan_reassbuf.c`. The clock, the outcome of `kmm_malloc` and what the metadata say are inputs
of a call. A reassembly buffer also has the fragments that it received; the code does not keep
them, and nothing that it does depends on them.
-/

namespace NuttxRtos.Sixlowpan

open Segment

/-- The configuration. TCP, UDP and ICMPv6 are enabled, and so are link addresses of one, two and
eight bytes. -/
structure Config where
  hc06 : Bool
  hc1 : Bool
  minport : ℕ
  contexts : List AddrContext
  /-- `CONFIG_NET_6LOWPAN_PKTSIZE`, which `Kconfig` limits. -/
  pktsize : ℕ
  pktsize_range : 590 ≤ pktsize ∧ pktsize ≤ 1518
  /-- `NET_6LOWPAN_TIMEOUT`. -/
  timeout : ℕ

/-- What the metadata of a frame say, as `sixlowpan_extract_srcaddr` and
`sixlowpan_extract_destaddr` get it. -/
structure Metadata where
  srcaddr : Option VarAddr
  destaddr : Option VarAddr

/-- A frame: `io_data`, `io_len`, and `io_offset`, which is behind the MAC header. -/
structure Iob where
  data : ℕ → Byte
  len : ℕ
  offset : ℕ

inductive Errno where
  | enospc
  | einval
  | enomem
  | enoent
  | eperm
  | enosys
  deriving DecidableEq

/-! ## Reassembly buffers -/

/-- `rb_pool`: `REASS_POOL_PREALLOCATED`, `REASS_POOL_DYNAMIC` or `REASS_POOL_RADIO`. -/
inductive Pool where
  | preallocated
  | dynamic
  | radio
  deriving DecidableEq

/-- A fragment that was received: where it is from, what its header says, and the places of the
packet buffer that were written for it. -/
structure Fragment where
  source : VarAddr
  tag : BitVec 16
  size : ℕ
  wrote : ℕ → Bool

/-- `struct sixlowpan_reassbuf_s`. -/
structure Reassbuf where
  buf : Buf
  pool : Pool
  active : Bool
  reasstag : BitVec 16
  pktlen : ℕ
  accumlen : ℕ
  boffset : ℕ
  fragsrc : VarAddr
  time : BitVec 32
  /-- The fragments received since the buffer was allocated. -/
  received : List Fragment

/-- The number of buffers in `g_free_reass`, the list `g_active_reass`, and the driver's buffer. -/
structure State where
  free : ℕ
  activeReass : List Reassbuf
  radio : Reassbuf

def Reassbuf.zero (pool : Pool) : Reassbuf :=
  { buf := fun _ => none, pool := pool, active := false, reasstag := 0, pktlen := 0, accumlen := 0
    boffset := 0, fragsrc := [], time := 0, received := [] }

/-- `sixlowpan_reass_initialize`, with a driver's buffer that is cleared. -/
def sixlowpanReassInitialize (nreassbuf : ℕ) : State :=
  { free := nreassbuf, activeReass := [], radio := Reassbuf.zero .radio }

/-- Where the buffer of a frame is: it is the driver's, or one of the active ones. -/
inductive Place where
  | radio
  | active (i : ℕ)
  deriving DecidableEq

def sixlowpanReassFree (place : Place) (s : State) : State :=
  match place with
  | .radio => s
  | .active i =>
    { s with
      free := s.free + if (s.activeReass[i]?).any (·.pool = .preallocated) then 1 else 0
      activeReass := s.activeReass.eraseIdx i }

def Reassbuf.expired (timeout : ℕ) (now : BitVec 32) (reass : Reassbuf) : Bool :=
  !reass.active || timeout ≤ (now - reass.time).toNat

def sixlowpanReassExpire (timeout : ℕ) (now : BitVec 32) (s : State) : State :=
  let gone := s.activeReass.filter (·.expired timeout now)
  { s with
    free := s.free + gone.countP (·.pool = .preallocated)
    activeReass := s.activeReass.filter fun reass => !reass.expired timeout now }

/-- Whether there is a new buffer, which is the first active one then. `malloc` says whether
`kmm_malloc` has memory; with `CONFIG_NET_6LOWPAN_REASS_STATIC` it never has. -/
def sixlowpanReassAllocate (timeout : ℕ) (now : BitVec 32) (malloc : Bool) (reasstag : BitVec 16)
    (fragsrc : VarAddr) (s : State) : Bool × State :=
  let s := sixlowpanReassExpire timeout now s
  let reass (pool : Pool) : Reassbuf :=
    { Reassbuf.zero pool with
      active := true, reasstag := reasstag, fragsrc := fragsrc, time := now }
  if 0 < s.free then
    (true, { s with free := s.free - 1, activeReass := reass .preallocated :: s.activeReass })
  else if malloc then (true, { s with activeReass := reass .dynamic :: s.activeReass })
  else (false, s)

def sixlowpanReassFind (timeout : ℕ) (now : BitVec 32) (reasstag : BitVec 16) (fragsrc : VarAddr)
    (s : State) : Option ℕ × State :=
  let s := sixlowpanReassExpire timeout now s
  (s.activeReass.findIdx? fun reass => reass.reasstag = reasstag ∧ reass.fragsrc = fragsrc, s)

/-! ## Headers -/

def sixlowpanUncompressIpv6hdr (frame : ℕ → Byte) (h : Headers) : Headers :=
  let ptr := (h.frameHdrlen + 1) % 256
  { buf := write h.buf 0 (read frame ptr ipv6Hdrlen), uncompHdrlen := h.uncompHdrlen + ipv6Hdrlen
    frameHdrlen := (ptr + ipv6Hdrlen) % 256 }

def protocolHdrlen (proto tcpoffset : Byte) : ℕ :=
  if proto = ipProtoTcp then (tcpoffset.toNat >>> 4) <<< 2
  else if proto = ipProtoUdp then udpHdrlen
  else if proto = ipProtoIcmp6 then 4
  else 0

/-- The protocol header behind the IPv6 header, and its size. -/
def sixlowpanUncompressIpv6proto (frame : ℕ → Byte) (h : Headers) : Headers × ℕ :=
  let protosize := protocolHdrlen (Buf.get h.buf 6) (frame (h.frameHdrlen + 12))
  ({ buf := write h.buf h.uncompHdrlen (read frame h.frameHdrlen protosize)
     uncompHdrlen := h.uncompHdrlen + protosize
     frameHdrlen := (h.frameHdrlen + protosize) % 256 }, protosize)

/-- The next dispatch and headers, and the size of a protocol header copied with them; `none` when
the dispatch is not known. -/
def uncompressHeaders (cfg : Config) (metadata : Metadata) (iob : Iob) (fragsize : ℕ)
    (copyProto : Bool) (h : Headers) : Option (Headers × ℕ) :=
  let dispatch := iob.data h.frameHdrlen
  if cfg.hc06 ∧ dispatch &&& 0xe0#8 = 0x60#8 then
    some (sixlowpanUncompresshdrHc06 iob.data cfg.contexts metadata.srcaddr metadata.destaddr
      fragsize iob.len h, 0)
  else if cfg.hc1 ∧ dispatch = dispatchHc1 then
    some (sixlowpanUncompresshdrHc1 iob.data cfg.minport metadata.srcaddr fragsize iob.len h, 0)
  else if dispatch = dispatchIpv6 then
    let h := sixlowpanUncompressIpv6hdr iob.data h
    if copyProto then some (sixlowpanUncompressIpv6proto iob.data h) else some (h, 0)
  else none

/-! ## Frames -/

/-- The fields of the fragment header. -/
def Iob.dispatch (iob : Iob) : BitVec 16 :=
  (word16 (iob.data iob.offset) (iob.data (iob.offset + 1)) &&& 0xf800#16) >>> 8

def Iob.fragsize (iob : Iob) : ℕ :=
  (word16 (iob.data iob.offset) (iob.data (iob.offset + 1)) &&& 0x07ff#16).toNat

def Iob.fragtag (iob : Iob) : BitVec 16 :=
  word16 (iob.data (iob.offset + 2)) (iob.data (iob.offset + 3))

def Iob.fragoffset (iob : Iob) : ℕ := (iob.data (iob.offset + 4)).toNat

def copyPayload (cfg : Config) (iob : Iob) (start frameHdrlen : ℕ) (buf : Buf) :
    Except Errno (Buf × ℕ) :=
  let paysize := (((iob.len : ℤ) - frameHdrlen) % 2 ^ 16).toNat
  if cfg.pktsize < paysize then .error .enospc
  else if cfg.pktsize < start + paysize then .error .enomem
  else .ok (write buf start (read iob.data frameHdrlen paysize), paysize)

def payloadPlaces (start paysize pos : ℕ) : Bool := start ≤ pos ∧ pos < start + paysize

/-- What became of the buffer of a frame, with the error if there is one. -/
abbrev Processed := Except (Errno × Reassbuf) Reassbuf

def processWhole (cfg : Config) (metadata : Metadata) (iob : Iob) (reass : Reassbuf) : Processed :=
  let reass := { reass with pool := .radio }
  match uncompressHeaders cfg metadata iob 0 true ⟨reass.buf, 0, iob.offset % 256⟩ with
  | none => .error (.enosys, reass)
  | some (h, _) =>
    match copyPayload cfg iob h.uncompHdrlen h.frameHdrlen h.buf with
    | .error errno => .error (errno, { reass with buf := h.buf })
    | .ok (buf, paysize) => .ok { reass with buf := buf, pktlen := paysize + h.uncompHdrlen }

/-- A first fragment, in the buffer allocated for it. -/
def processFrag1 (cfg : Config) (metadata : Metadata) (fragsrc : VarAddr) (iob : Iob)
    (reass : Reassbuf) : Processed :=
  let reass := { reass with pktlen := iob.fragsize }
  match uncompressHeaders cfg metadata iob iob.fragsize true
      ⟨reass.buf, 0, (iob.offset % 256 + 4) % 256⟩ with
  | none => .error (.enosys, reass)
  | some (h, protosize) =>
    let reass := { reass with buf := h.buf, boffset := h.uncompHdrlen - protosize }
    match copyPayload cfg iob h.uncompHdrlen h.frameHdrlen h.buf with
    | .error errno => .error (errno, reass)
    | .ok (buf, paysize) =>
      let fragment : Fragment :=
        { source := fragsrc, tag := iob.fragtag, size := iob.fragsize
          wrote := fun pos => (h.buf pos).isSome || payloadPlaces h.uncompHdrlen paysize pos }
      -- The sum is at most `CONFIG_NET_6LOWPAN_PKTSIZE`, so it fits 16 bits.
      .ok { reass with
        buf := buf, accumlen := h.uncompHdrlen + paysize
        received := fragment :: reass.received }

/-- A later fragment, in the buffer found for it. Its header goes to `g_bitbucket`, of which
nothing is read again. -/
def processFragn (cfg : Config) (metadata : Metadata) (fragsrc : VarAddr) (iob : Iob)
    (reass : Reassbuf) : Processed :=
  if iob.fragsize ≠ reass.pktlen then .error (.eperm, reass)
  else
    match uncompressHeaders cfg metadata iob iob.fragsize false
        ⟨fun _ => none, 0, (iob.offset % 256 + 5) % 256⟩ with
    | none => .error (.enosys, reass)
    | some (h, _) =>
      let start := reass.boffset + iob.fragoffset <<< 3
      match copyPayload cfg iob start h.frameHdrlen reass.buf with
      | .error errno => .error (errno, reass)
      | .ok (buf, paysize) =>
        let fragment : Fragment :=
          { source := fragsrc, tag := iob.fragtag, size := iob.fragsize
            wrote := payloadPlaces start paysize }
        .ok { reass with
          buf := buf, accumlen := start + paysize, received := fragment :: reass.received }

inductive Result where
  /-- `INPUT_PARTIAL` -/
  | incomplete
  /-- `INPUT_COMPLETE`: `d_buf` is the `rb_buf` of the buffer and `d_len` its `rb_pktlen`. -/
  | complete (place : Place) (reass : Reassbuf)
  | failed (errno : Errno)

def State.setReass (place : Place) (reass : Reassbuf) (s : State) : State :=
  match place with
  | .radio => { s with radio := reass }
  | .active i => { s with activeReass := s.activeReass.set i reass }

/-- The packet is complete when the latest fragment reaches its end, or when the accumulated length
is zero, as in the driver's buffer. A frame that fails frees its buffer. -/
def finish (place : Place) (processed : Processed) (s : State) : Result × State :=
  match processed with
  | .error (errno, reass) => (.failed errno, sixlowpanReassFree place (s.setReass place reass))
  | .ok reass =>
    if reass.accumlen = 0 ∨ reass.pktlen ≤ reass.accumlen then
      (.complete place reass,
        s.setReass place { reass with active := false, pktlen := 0, accumlen := 0 })
    else (.incomplete, s.setReass place reass)

structure Input where
  now : BitVec 32
  malloc : Bool
  metadata : Metadata
  iob : Iob

def sixlowpanFrameProcess (cfg : Config) (input : Input) (s : State) : Result × State :=
  let iob := input.iob
  if iob.dispatch = 0x00c0#16 then
    if iob.fragsize = 0 then (.incomplete, s)
    else if cfg.pktsize < iob.fragsize then (.failed .enospc, s)
    else match input.metadata.srcaddr with
      | none => (.failed .einval, s)
      | some fragsrc =>
        match sixlowpanReassAllocate cfg.timeout input.now input.malloc iob.fragtag fragsrc s with
        | (false, s) => (.failed .enomem, s)
        | (true, s) =>
          match s.activeReass[0]? with
          | none => (.failed .enomem, s)
          | some reass =>
            finish (.active 0) (processFrag1 cfg input.metadata fragsrc iob reass) s
  else if iob.dispatch = 0x00e0#16 then
    match input.metadata.srcaddr with
    | none => (.failed .einval, s)
    | some fragsrc =>
      match sixlowpanReassFind cfg.timeout input.now iob.fragtag fragsrc s with
      | (none, s) => (.failed .enoent, s)
      | (some i, s) =>
        match s.activeReass[i]? with
        | none => (.failed .enoent, s)
        | some reass =>
          finish (.active i) (processFragn cfg input.metadata fragsrc iob reass) s
  else finish .radio (processWhole cfg input.metadata iob s.radio) s

/-- `sixlowpan_dispatch` frees the buffer of a complete packet once the network has had it. -/
def sixlowpanDispatch : Result × State → Result × State
  | (.complete place reass, s) => (.complete place reass, sixlowpanReassFree place s)
  | (.incomplete, s) => (.incomplete, s)
  | (.failed errno, s) => (.failed errno, s)

def sixlowpanInput (cfg : Config) (input : Input) (s : State) : Result × State :=
  sixlowpanDispatch (sixlowpanFrameProcess cfg input s)

/-- The states after frames that all meet a condition. -/
inductive Run (cfg : Config) (condition : State → Input → Prop) : State → Prop where
  | initial (nreassbuf : ℕ) : Run cfg condition (sixlowpanReassInitialize nreassbuf)
  | input {s : State} {input : Input} (run : Run cfg condition s) (meets : condition s input) :
      Run cfg condition (sixlowpanInput cfg input s).2

end NuttxRtos.Sixlowpan
