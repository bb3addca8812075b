import NuttxRtos.Lib.Overlay

/-!
# The read-ahead and write buffer of block drivers

The functions of `drivers/rwbuffer.c` in a build with `CONFIG_DRVR_WRITEBUFFER` and
`CONFIG_DRVR_READAHEAD`, with or without `CONFIG_DRVR_INVALIDATE`. A block is a value of an
arbitrary type, and the buffers hold blocks. The media is part of the state: the callbacks `wrflush`
and `rhreload` write and read it and always succeed. A function that waits for a semaphore which
nobody will post has no result.
-/

namespace NuttxRtos.Rwbuffer

open Overlay

variable {β : Type}

/-- What the driver sets before `rwb_initialize`, and the build option. -/
structure Geometry where
  nblocks : ℕ
  wrmaxblocks : ℕ
  rhmaxblocks : ℕ
  invalidate : Bool

/-- `struct rwbuffer_s` and the media behind it. -/
structure Rwb (β : Type) where
  wrsem : ℕ
  wrbuffer : ℕ → β
  wrnblocks : ℕ
  wrblockstart : ℤ
  wrexpectedblock : ℤ
  rhsem : ℕ
  rhbuffer : ℕ → β
  rhnblocks : ℕ
  rhblockstart : ℤ
  media : ℤ → β

/-- The errors of a read: a start behind the end of the media, and a short reload. -/
inductive Error where
  | espipe
  | eio
  deriving DecidableEq, Repr

/-- The conversion to `off_t`, an `int32_t`. -/
def toOff (x : ℤ) : ℤ := (x + 2 ^ 31) % 2 ^ 32 - 2 ^ 31

def toSize (x : ℤ) : ℕ := (x % 2 ^ 32).toNat

/-! ## Semaphores -/

def takeWrsem (rwb : Rwb β) : Option (Rwb β) :=
  if 0 < rwb.wrsem then some { rwb with wrsem := rwb.wrsem - 1 } else none

def giveWrsem (rwb : Rwb β) : Rwb β := { rwb with wrsem := rwb.wrsem + 1 }

def takeRhsem (rwb : Rwb β) : Option (Rwb β) :=
  if 0 < rwb.rhsem then some { rwb with rhsem := rwb.rhsem - 1 } else none

def giveRhsem (rwb : Rwb β) : Rwb β := { rwb with rhsem := rwb.rhsem + 1 }

def rwbOverlap (blockstart1 : ℤ) (nblocks1 : ℕ) (blockstart2 : ℤ) (nblocks2 : ℕ) : Bool :=
  let blockend1 := toOff (blockstart1 + nblocks1 - 1)
  let blockend2 := toOff (blockstart2 + nblocks2 - 1)
  !(blockend1 < blockstart2 || blockend2 < blockstart1)

/-! ## The write buffer -/

def rwbResetwrbuffer (rwb : Rwb β) : Rwb β :=
  { rwb with wrnblocks := 0, wrblockstart := -1, wrexpectedblock := -1 }

def wrflush (rwb : Rwb β) (buffer : ℕ → β) (startblock : ℤ) (nblocks : ℕ) : Rwb β :=
  { rwb with media := overlay rwb.media startblock nblocks buffer }

def rwbWrflush (rwb : Rwb β) : Rwb β :=
  if 0 < rwb.wrnblocks then
    rwbResetwrbuffer (wrflush rwb rwb.wrbuffer rwb.wrblockstart rwb.wrnblocks)
  else rwb

/-- The write buffer cannot take the blocks in addition to its own. -/
def writebufferMiss (g : Geometry) (rwb : Rwb β) (startblock : ℤ) (nblocks : ℕ) : Bool :=
  (startblock ≠ rwb.wrexpectedblock ∧ rwb.wrnblocks ≠ 0) ∨ g.wrmaxblocks < rwb.wrnblocks + nblocks

/-- Add blocks behind those in the write buffer, or start with them. -/
def appendWrbuffer (rwb : Rwb β) (startblock : ℤ) (nblocks : ℕ) (wrbuffer : ℕ → β) : Rwb β :=
  let wrblockstart := if rwb.wrnblocks = 0 then startblock else rwb.wrblockstart
  { rwb with
    wrblockstart := wrblockstart
    wrbuffer := splice rwb.wrbuffer rwb.wrnblocks nblocks wrbuffer
    wrnblocks := rwb.wrnblocks + nblocks
    wrexpectedblock := toOff (wrblockstart + (rwb.wrnblocks + nblocks : ℕ)) }

def rwbWritebuffer (g : Geometry) (rwb : Rwb β) (startblock : ℤ) (nblocks : ℕ)
    (wrbuffer : ℕ → β) : Rwb β :=
  let rwb :=
    if writebufferMiss g rwb startblock nblocks then
      rwbResetwrbuffer (wrflush rwb rwb.wrbuffer rwb.wrblockstart rwb.wrnblocks)
    else rwb
  appendWrbuffer rwb startblock nblocks wrbuffer

def rwbInvalidateWritebuffer (g : Geometry) (rwb : Rwb β) (startblock : ℤ) (blockcount : ℕ) :
    Option (Rwb β) :=
  if 0 < g.wrmaxblocks ∧ 0 < rwb.wrnblocks then do
    let rwb ← takeWrsem rwb
    let wrbend := toOff (rwb.wrblockstart + rwb.wrnblocks)
    let invend := toOff (startblock + blockcount)
    let rwb :=
      if wrbend ≤ startblock ∨ invend ≤ rwb.wrblockstart then rwb
      else if startblock ≤ rwb.wrblockstart ∧ wrbend ≤ invend then { rwb with wrnblocks := 0 }
      else if rwb.wrblockstart < startblock ∧ invend < wrbend then
        -- The blocks behind the region go to the media, those in front of it are kept.
        let offset := (invend - rwb.wrblockstart).toNat
        let rwb := wrflush rwb (fun i => rwb.wrbuffer (offset + i)) invend (wrbend - invend).toNat
        { rwb with wrnblocks := (startblock - rwb.wrblockstart).toNat }
      else if startblock < wrbend ∧ wrbend ≤ invend then
        { rwb with wrnblocks := (wrbend - startblock).toNat }
      else
        let ninval := (invend - rwb.wrblockstart).toNat
        let nkeep := rwb.wrnblocks - ninval
        { rwb with
          wrbuffer := splice rwb.wrbuffer 0 nkeep fun i => rwb.wrbuffer (ninval + i)
          wrblockstart := invend
          wrnblocks := nkeep }
    return giveWrsem rwb
  else some rwb

/-! ## The read-ahead buffer -/

def rwbResetrhbuffer (rwb : Rwb β) : Rwb β := { rwb with rhnblocks := 0, rhblockstart := -1 }

def rwbBufferread (rwb : Rwb β) (startblock : ℤ) (nblocks : ℕ) : List β :=
  (List.range nblocks).map fun i => rwb.rhbuffer ((startblock - rwb.rhblockstart).toNat + i)

def rhreload (rwb : Rwb β) (startblock : ℤ) (nblocks : ℕ) : ℕ → β :=
  splice rwb.rhbuffer 0 nblocks fun i : ℕ => rwb.media (startblock + i)

def rwbRhreload (g : Geometry) (rwb : Rwb β) (startblock : ℤ) : Except Error (Rwb β) :=
  if g.nblocks ≤ toSize startblock then .error .espipe
  else
    let endblock := toOff (startblock + g.rhmaxblocks)
    let endblock := if g.nblocks < toSize endblock then toOff g.nblocks else endblock
    let nblocks := toSize (endblock - startblock)
    let rwb := rwbResetrhbuffer rwb
    .ok { rwb with
      rhbuffer := rhreload rwb startblock nblocks
      rhnblocks := nblocks
      rhblockstart := startblock }

/-- The blocks from `startblock` on that the read-ahead buffer can deliver, at most `remaining`. -/
def rwbAvailable (rwb : Rwb β) (startblock : ℤ) (remaining : ℕ) : ℕ :=
  if 0 < rwb.rhnblocks then
    let bufferend := toOff (rwb.rhblockstart + rwb.rhnblocks)
    if rwb.rhblockstart ≤ startblock ∧ startblock < bufferend then
      min (bufferend - startblock).toNat remaining
    else 0
  else 0

/-- The loop of `rwb_read_`; `out` are the blocks copied so far. -/
def rwbReadLoop (g : Geometry) :
    ℕ → Rwb β → ℤ → ℕ → List β → Option (Except Error (List β) × Rwb β)
  | 0, _, _, _, _ => none
  | fuel + 1, rwb, startblock, remaining, out =>
    if remaining = 0 then some (.ok out, rwb)
    else
      let rdblocks := rwbAvailable rwb startblock remaining
      let out := out ++ rwbBufferread rwb startblock rdblocks
      if 0 < remaining - rdblocks then
        match rwbRhreload g rwb (startblock + rdblocks) with
        | .error e => some (.error e, rwb)
        | .ok rwb => rwbReadLoop g fuel rwb (startblock + rdblocks) (remaining - rdblocks) out
      else some (.ok out, rwb)

/-- A pass of the loop delivers a block or reloads the buffer, so `nblocks + 2` passes are
enough. -/
def rwbRead_ (g : Geometry) (rwb : Rwb β) (startblock : ℤ) (nblocks : ℕ) :
    Option (Except Error (List β) × Rwb β) :=
  if 0 < g.rhmaxblocks then do
    let rwb ← takeRhsem rwb
    let (ret, rwb) ← rwbReadLoop g (nblocks + 2) rwb startblock nblocks []
    return (ret, giveRhsem rwb)
  else some (.ok (slice rwb.media startblock nblocks), rwb)

def rwbInvalidateReadahead (g : Geometry) (rwb : Rwb β) (startblock : ℤ) (blockcount : ℕ) :
    Option (Rwb β) :=
  if 0 < g.rhmaxblocks ∧ 0 < rwb.rhnblocks then do
    let rwb ← takeRhsem rwb
    let rhbend := toOff (rwb.rhblockstart + rwb.rhnblocks)
    let invend := toOff (startblock + blockcount)
    let rwb :=
      if rhbend ≤ startblock ∨ invend ≤ rwb.rhblockstart then rwb
      else if startblock ≤ rwb.rhblockstart ∧ rhbend ≤ invend then { rwb with rhnblocks := 0 }
      else if rwb.rhblockstart < startblock ∧ invend < rhbend then
        { rwb with rhnblocks := (startblock - rwb.rhblockstart).toNat }
      else if startblock < rhbend ∧ rhbend ≤ invend then
        { rwb with rhnblocks := (rhbend - startblock).toNat }
      else
        let ninval := (invend - rwb.rhblockstart).toNat
        let nkeep := rwb.rhnblocks - ninval
        { rwb with
          rhbuffer := splice rwb.rhbuffer 0 nkeep fun i => rwb.rhbuffer (ninval + i)
          rhblockstart := invend
          rhnblocks := nkeep }
    return giveRhsem rwb
  else some rwb

/-! ## Transfers -/

/-- The blocks in front of the write buffer. -/
def readBefore (g : Geometry) (rwb : Rwb β) (startblock : ℤ) :
    Option (Except Error (List β) × Rwb β) :=
  if startblock < rwb.wrblockstart then
    rwbRead_ g rwb startblock (rwb.wrblockstart - startblock).toNat
  else some (.ok [], rwb)

def copyWrbuffer (rwb : Rwb β) (startblock : ℤ) (nblocks : ℕ) : List β :=
  let wrnpass := if rwb.wrblockstart < startblock then (startblock - rwb.wrblockstart).toNat else 0
  let rdblocks := if rwb.wrnblocks - wrnpass < nblocks then rwb.wrnblocks - wrnpass else nblocks
  (List.range rdblocks).map fun i => rwb.wrbuffer (wrnpass + i)

/-- The part of `rwb_read` before its last call of `rwb_read_`: up to the end of the write buffer,
if that overlaps the request. -/
def readWrbuffer (g : Geometry) (rwb : Rwb β) (startblock : ℤ) (nblocks : ℕ) :
    Option (Except Error (List β) × Rwb β) := do
  let rwb ← takeWrsem rwb
  if rwbOverlap rwb.wrblockstart rwb.wrnblocks startblock nblocks then
    let (before, rwb) ← readBefore g rwb startblock
    match before with
    | .error e => return (.error e, giveWrsem rwb)
    | .ok before =>
      let copied := copyWrbuffer rwb (startblock + before.length) (nblocks - before.length)
      return (.ok (before ++ copied), giveWrsem rwb)
  else return (.ok [], giveWrsem rwb)

def rwbRead (g : Geometry) (rwb : Rwb β) (startblock : ℤ) (nblocks : ℕ) :
    Option (Except Error (List β) × Rwb β) := do
  let (head, rwb) ←
    if 0 < g.wrmaxblocks then readWrbuffer g rwb startblock nblocks else some (.ok [], rwb)
  match head with
  | .error e => return (.error e, rwb)
  | .ok head =>
    let (ret, rwb) ← rwbRead_ g rwb (startblock + head.length) (nblocks - head.length)
    return (ret.map (head ++ ·), rwb)

/-- The part of `rwb_write` that keeps the read-ahead buffer clear of the new data. With
`CONFIG_DRVR_INVALIDATE` it calls `rwb_invalidate_readahead`, which takes `rhsem` once more. -/
def writeReadahead (g : Geometry) (rwb : Rwb β) (startblock : ℤ) (nblocks : ℕ) : Option (Rwb β) :=
  if 0 < g.rhmaxblocks then do
    let rwb ← takeRhsem rwb
    let rwb ←
      if rwbOverlap rwb.rhblockstart rwb.rhnblocks startblock nblocks then
        if g.invalidate then rwbInvalidateReadahead g rwb startblock nblocks
        else some (rwbResetrhbuffer rwb)
      else some rwb
    return giveRhsem rwb
  else some rwb

def rwbWrite (g : Geometry) (rwb : Rwb β) (startblock : ℤ) (nblocks : ℕ) (wrbuffer : ℕ → β) :
    Option (Rwb β) := do
  let rwb ← writeReadahead g rwb startblock nblocks
  if 0 < g.wrmaxblocks then
    let rwb ← takeWrsem rwb
    if g.wrmaxblocks < nblocks then
      return wrflush (giveWrsem (rwbWrflush rwb)) wrbuffer startblock nblocks
    else return giveWrsem (rwbWritebuffer g rwb startblock nblocks wrbuffer)
  else return wrflush rwb wrbuffer startblock nblocks

def rwbFlush (rwb : Rwb β) : Option (Rwb β) := do
  let rwb ← takeWrsem rwb
  return giveWrsem (rwbWrflush rwb)

/-- The worker that runs when the write buffer has been idle for `CONFIG_DRVR_WRDELAY`. -/
def rwbWrtimeout (rwb : Rwb β) : Option (Rwb β) := do
  let rwb ← takeWrsem rwb
  return giveWrsem (rwbWrflush rwb)

/-- `rwb_initialize` in front of the given media; the buffers are not cleared. -/
def rwbInitialize (media : ℤ → β) (wrbuffer rhbuffer : ℕ → β) : Rwb β :=
  { wrsem := 1, wrbuffer := wrbuffer, wrnblocks := 0, wrblockstart := -1, wrexpectedblock := -1
    rhsem := 1, rhbuffer := rhbuffer, rhnblocks := 0, rhblockstart := -1, media := media }

/-! ## Sequences of calls -/

inductive Op (β : Type) where
  | write (startblock : ℤ) (nblocks : ℕ) (wrbuffer : ℕ → β)
  | read (startblock : ℤ) (nblocks : ℕ)
  | flush
  | timeout

def step (g : Geometry) (rwb : Rwb β) : Op β → Option (Except Error (List β) × Rwb β)
  | .write startblock nblocks wrbuffer =>
    (rwbWrite g rwb startblock nblocks wrbuffer).map fun rwb => (.ok [], rwb)
  | .read startblock nblocks => rwbRead g rwb startblock nblocks
  | .flush => (rwbFlush rwb).map fun rwb => (.ok [], rwb)
  | .timeout => (rwbWrtimeout rwb).map fun rwb => (.ok [], rwb)

/-- The calls in turn, with everything that they deliver. -/
def run (g : Geometry) (rwb : Rwb β) : List (Op β) → Option (List (Except Error (List β)) × Rwb β)
  | [] => some ([], rwb)
  | op :: ops => do
      let (out, rwb) ← step g rwb op
      let (outs, rwb) ← run g rwb ops
      return (out :: outs, rwb)

end NuttxRtos.Rwbuffer
