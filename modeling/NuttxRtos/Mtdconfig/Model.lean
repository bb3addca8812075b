import NuttxRtos.Lib.Segment

/-!
# Configuration data on flash

`mtd_config.c`: items with an id and an instance in the erase blocks of an MTD device. The device
reads back what was written, a write clears bits only, and an access behind its end fails. Reads
and writes of single bytes and of blocks have the same effect, so they are not told apart; data is
copied in one piece. The header is packed and little endian: flags, instance, id and length in six
bytes. Loops have fuel for as many rounds as the device has bytes.
-/

namespace NuttxRtos.Mtdconfig

open Segment

abbrev Byte := BitVec 8

abbrev Flash := ℕ → Byte

/-- The device. -/
structure Geometry where
  blocksize : ℕ
  erasesize : ℕ
  neraseblocks : ℕ
  /-- The optional method `read` is there. -/
  byteRead : Bool
  /-- `CONFIG_MTD_CONFIG_RAM_CONSOLIDATE`. -/
  ramConsolidate : Bool
  /-- An erase block has room for its header and an entry. -/
  roomy : 10 ≤ erasesize
  nonempty : 1 ≤ neraseblocks
  whole : blocksize ≤ erasesize
  /-- Numbers of blocks are of type `uint16_t`. -/
  blocks_lt : neraseblocks * erasesize < 2 ^ 16 * blocksize

def Geometry.size (g : Geometry) : ℕ := g.neraseblocks * g.erasesize

/-- The number of the erase block behind those in use. The last one is kept for consolidation. -/
def Geometry.endblock (g : Geometry) : ℕ :=
  if g.ramConsolidate then g.neraseblocks
  else if g.neraseblocks = 1 then 1
  else g.neraseblocks - 1

structure Header where
  flags : Byte
  inst : Byte
  id : BitVec 16
  len : BitVec 16
  deriving DecidableEq

def Header.bytes (h : Header) : List Byte :=
  [h.flags, h.inst, h.id.extractLsb' 0 8, h.id.extractLsb' 8 8, h.len.extractLsb' 0 8,
    h.len.extractLsb' 8 8]

def Header.ofBytes (l : List Byte) : Header :=
  { flags := l.getD 0 0, inst := l.getD 1 0, id := l.getD 3 0 ++ l.getD 2 0
    len := l.getD 5 0 ++ l.getD 4 0 }

/-- The id and the instance in a `struct config_data_s`. -/
structure Item where
  id : BitVec 16
  inst : ℤ
  deriving DecidableEq

def Header.Matches (h : Header) (item : Item) : Prop :=
  h.id = item.id ∧ (h.inst.toNat : ℤ) = item.inst

instance (h : Header) (item : Item) : Decidable (h.Matches item) :=
  inferInstanceAs (Decidable (_ ∧ _))

inductive Errno where
  | enosys
  | enoent
  | enomem
  | eio
  deriving DecidableEq

instance decEqExcept {ε α : Type*} [DecidableEq ε] [DecidableEq α] : DecidableEq (Except ε α)
  | .ok a, .ok b => decidable_of_iff (a = b) (by simp)
  | .error a, .error b => decidable_of_iff (a = b) (by simp)
  | .ok _, .error _ | .error _, .ok _ => isFalse nofun

/-! ## Access to the device -/

variable (g : Geometry)

def readbytes (mem : Flash) (offset readlen : ℕ) : Option (List Byte) :=
  if offset + readlen ≤ g.size then some (read mem offset readlen) else none

def writebytes (mem : Flash) (offset : ℕ) (data : List Byte) : Option Flash :=
  if offset + data.length ≤ g.size then
    some fun i => if offset ≤ i ∧ i < offset + data.length then mem i &&& data.getD (i - offset) 0
      else mem i
  else none

def erase (mem : Flash) (block : ℕ) : Flash := fun i =>
  if i / g.erasesize = block then 0xff#8 else mem i

def readHdr (mem : Flash) (offset : ℕ) : Option Header :=
  (readbytes g mem offset 6).map Header.ofBytes

/-- `CD` and the format version. -/
def sig : List Byte := [0x43#8, 0x44#8, 1]

/-! ## The walk over the headers -/

def findfirstLoop (mem : Flash) : ℕ → ℕ → Header → ℕ × Header
  | 0, _, hdr => (0, hdr)
  | fuel + 1, offset, hdr =>
    match readHdr g mem offset with
    | none => (0, hdr)
    | some hdr =>
      if hdr.flags ≠ 0xff#8 then
        let offset := offset + 6 + hdr.len.toNat
        let block := offset / g.erasesize
        let bytesLeftInBlock := (block + 1) * g.erasesize - offset
        if bytesLeftInBlock ≤ 6 then
          if g.endblock ≤ block + 1 then (0, hdr)
          else findfirstLoop mem fuel ((block + 1) * g.erasesize + 3) hdr
        -- Behind the end of a block there is no test for the last one.
        else if bytesLeftInBlock = g.erasesize then findfirstLoop mem fuel (offset + 3) hdr
        else findfirstLoop mem fuel offset hdr
      else (offset, hdr)

/-- The offset of the first entry that is not released, perhaps an empty one, or 0, and its header;
`hdr` is the header before. -/
def findfirstentry (mem : Flash) (hdr : Header) : ℕ × Header :=
  if readbytes g mem 0 3 = some sig then findfirstLoop g mem (g.size + 1) 3 hdr else (0, hdr)

def nextOffset (offset : ℕ) (hdr : Header) : Option ℕ :=
  let offset := offset + 6 + hdr.len.toNat
  let offset := if offset % g.erasesize = 0 then offset + 3 else offset
  if g.endblock * g.erasesize ≤ offset then none
  else
    let block := offset / g.erasesize
    let bytesLeftInBlock := ((block + 1) * g.erasesize - offset) % 2 ^ 16
    if bytesLeftInBlock ≤ 6 then
      if g.endblock ≤ block + 1 then none else some ((block + 1) * g.erasesize + 3)
    else some offset

/-- `mtdconfig_findnextentry` from `read_next` on. -/
def findnextLoop (mem : Flash) (size : ℕ) : ℕ → ℕ → Header → ℕ × Header
  | 0, _, hdr => (0, hdr)
  | fuel + 1, offset, hdr =>
    match readHdr g mem offset with
    | none => (0, hdr)
    | some hdr =>
      if hdr.flags = 0xff#8 ∧ hdr.id = 0xffff#16 then
        let block := offset / g.erasesize
        let bytesLeftInBlock := ((block + 1) * g.erasesize - offset) % 2 ^ 16
        if 0 < size ∧ size + 6 ≤ bytesLeftInBlock then (offset, hdr)
        else if g.endblock ≤ block + 1 then (0, hdr)
        else findnextLoop mem size fuel ((block + 1) * g.erasesize + 3) hdr
      else if hdr.flags = 0xff#8 ∧ size = 0 then (offset, hdr)
      else match nextOffset g offset hdr with
        | none => (0, hdr)
        | some offset => findnextLoop mem size fuel offset hdr

/-- The next active entry, or with a size the next free space of that size. -/
def findnextentry (mem : Flash) (offset : ℕ) (hdr : Header) (size : ℕ) : ℕ × Header :=
  match nextOffset g offset hdr with
  | none => (0, hdr)
  | some offset => findnextLoop g mem size (g.size + 1) offset hdr

def findentryLoop (mem : Flash) (item : Item) : ℕ → ℕ → Header → ℕ × Header
  | 0, _, hdr => (0, hdr)
  | fuel + 1, offset, hdr =>
    if 0 < offset ∧ ¬hdr.Matches item then
      if hdr.id = 0xffff#16 then
        let offset := (offset + g.erasesize) / g.erasesize * g.erasesize + 3
        if g.endblock * g.erasesize ≤ offset then (0, hdr)
        else match readHdr g mem offset with
          | none => (0, hdr)
          | some hdr =>
            if hdr.flags = 0xff#8 then findentryLoop mem item fuel offset hdr
            else
              let next := findnextentry g mem offset hdr 0
              findentryLoop mem item fuel next.1 next.2
      else
        let next := findnextentry g mem offset hdr 0
        findentryLoop mem item fuel next.1 next.2
    else (offset, hdr)

/-- The entry of an item from a given one on; the offset is 0 when there is none. -/
def findentry (mem : Flash) (offset : ℕ) (item : Item) (hdr : Header) : ℕ × Header :=
  findentryLoop g mem item (g.size + 1) offset hdr

/-! ## Consolidation -/

structure Relocation where
  mem : Flash
  dstBlock : ℕ
  dstOffset : ℕ

def Relocation.nextBlock (r : Relocation) : Relocation :=
  { r with dstBlock := r.dstBlock + 1, dstOffset := (r.dstBlock + 1) * g.erasesize + 3 }

/-- Move to the next block when there is no room for a header. -/
def Relocation.advance (r : Relocation) : Relocation :=
  if (r.dstBlock + 1) * g.erasesize ≤ r.dstOffset + 6 then r.nextBlock g else r

/-- Write an entry to the destination. The error is the flash after an access that failed. -/
def Relocation.put (r : Relocation) (hdr : Header) (data : Option (List Byte)) :
    Except Flash Relocation :=
  match writebytes g r.mem r.dstOffset hdr.bytes with
  | none => .error r.mem
  | some mem =>
    match data.bind fun data => writebytes g mem (r.dstOffset + 6) data with
    | none => .error mem
    | some mem => .ok { r with mem := mem, dstOffset := r.dstOffset + 6 + hdr.len.toNat }

def ramconsolidateBlock (pbuf : ℕ → Byte) : ℕ → ℕ → Relocation → Except Flash Relocation
  | 0, _, r => .ok r
  | fuel + 1, srcOffset, r =>
    if srcOffset < g.erasesize then
      let hdr := Header.ofBytes (read pbuf srcOffset 6)
      if hdr.id = 0xffff#16 then .ok r
      else do
        let r ←
          if hdr.flags = 0xff#8 then do
            let r :=
              if (r.dstBlock + 1) * g.erasesize - r.dstOffset < 6 + hdr.len.toNat then
                r.nextBlock g
              else r
            let r ← r.put g hdr (some (read pbuf (srcOffset + 6) hdr.len.toNat))
            pure (r.advance g)
          else pure r
        let srcOffset := srcOffset + 6 + hdr.len.toNat
        ramconsolidateBlock pbuf fuel
          (if g.erasesize < srcOffset + 6 then g.erasesize else srcOffset)
          r
    else .ok r

/-- Erase a block; if it is block zero, write a format signature. -/
def eraseBlock (mem : Flash) (block : ℕ) : Except Flash Flash :=
  let mem := erase g mem block
  if block = 0 then
    match writebytes g mem 0 sig with
    | none => .error mem
    | some mem => .ok mem
  else .ok mem

def ramconsolidateLoop : ℕ → ℕ → Relocation → Except Flash Relocation
  | 0, _, r => .ok r
  | count + 1, srcBlock, r => do
    let pbuf : ℕ → Byte := fun i => r.mem (srcBlock * g.erasesize + i)
    let mem ← eraseBlock g r.mem srcBlock
    let r ← ramconsolidateBlock g pbuf (g.size + 1) 3 { r with mem := mem }
    ramconsolidateLoop count (srcBlock + 1) r

/-- The flash after `mtdconfig_ramconsolidate`; `pbuf` says whether there is memory for a buffer. -/
def ramconsolidate (pbuf : Bool) (mem : Flash) : Flash :=
  if pbuf then
    match ramconsolidateLoop g g.neraseblocks 0 ⟨mem, 0, 3⟩ with
    | .error mem => mem
    | .ok r => r.mem
  else mem

/-- The source of the next entry as well. -/
structure Consolidation extends Relocation where
  srcBlock : ℕ
  srcOffset : ℕ

def skipEnd (block offset : ℕ) : ℕ :=
  if (block + 1) * g.erasesize ≤ offset + 6 then (block + 1) * g.erasesize + 3 else offset

/-- The end of a round of `mtdconfig_consolidate`: a block that is empty is erased. -/
def Consolidation.endRound (c : Consolidation) : Consolidation :=
  let srcOffset := skipEnd g c.srcBlock c.srcOffset
  let emptied : Bool := c.srcBlock ≠ srcOffset / g.erasesize
  let r : Relocation :=
    { c.toRelocation with mem := if emptied then erase g c.mem c.srcBlock else c.mem }
  { r.advance g with
    srcBlock := if emptied then c.srcBlock + 1 else c.srcBlock, srcOffset := srcOffset }

/-- A round from the header of the source on. -/
def Consolidation.relocate (c : Consolidation) : Except Flash Consolidation :=
  match readHdr g c.mem c.srcOffset with
  | none => .error c.mem
  | some hdr =>
    if hdr.flags = 0xff#8 then
      if hdr.id = 0xffff#16 then
        .ok ({ c with srcOffset := (c.srcBlock + 1) * g.erasesize + 3 }.endRound g)
      else if ((c.dstBlock + 1) * g.erasesize - c.dstOffset) % 2 ^ 16 < hdr.len.toNat + 6 then
        .ok { c with toRelocation := c.toRelocation.nextBlock g }
      else do
        let r ← c.toRelocation.put g hdr (readbytes g c.mem (c.srcOffset + 6) hdr.len.toNat)
        pure (Consolidation.endRound g
          { r with srcBlock := c.srcBlock, srcOffset := c.srcOffset + 6 + hdr.len.toNat })
    else
      .ok ({ c with
        srcOffset := skipEnd g c.srcBlock (c.srcOffset + 6 + hdr.len.toNat) }.endRound g)

/-- The header is read with `MTD_READ`, which fails without the method. -/
def Consolidation.round (c : Consolidation) : Except Flash Consolidation :=
  if g.byteRead then c.relocate g else .error c.mem

def consolidateLoop : ℕ → Consolidation → Flash
  | 0, c => c.mem
  | fuel + 1, c =>
    if c.srcBlock < g.neraseblocks then
      match c.round g with
      | .error mem => mem
      | .ok c => consolidateLoop fuel c
    else c.mem

def copyBlock0 (mem : Flash) (block : ℕ) : Flash := fun i =>
  if i / g.erasesize = block then mem i &&& mem (i % g.erasesize) else mem i

def consolidate (pbuf : Bool) (mem : Flash) : Flash :=
  let mem := erase g mem (g.neraseblocks - 1)
  if pbuf then
    let mem := copyBlock0 g mem (g.neraseblocks - 1)
    let mem := erase g mem 0
    match writebytes g mem 0 sig with
    | none => mem
    | some mem => consolidateLoop g (2 * g.size + 2)
        { mem := mem, dstBlock := 0, dstOffset := 3, srcBlock := 1
          srcOffset := g.erasesize + 3 }
  else mem

/-! ## Items -/

/-- Whether there is memory for the block buffer, and for the buffer of a consolidation. -/
structure Memory where
  buffer : Bool
  pbuf : Bool

inductive Result where
  | ok
  | failed (errno : Errno)
  /-- The number of bytes that the write of the signature gave. -/
  | count (bytes : ℕ)
  deriving DecidableEq

inductive Place where
  | at (offset : ℕ)
  /-- No free entries left on device. -/
  | full
  /-- There is no first entry. -/
  | none
  deriving DecidableEq

/-- An active block is simulated for an empty entry that is too small. Its length is still the
erased one. -/
def simulateActive (offset : ℕ) (hdr : Header) (len : ℕ) : Header :=
  let bytesLeftInBlock := (offset / g.erasesize + 1) * g.erasesize - offset
  if 0 < offset ∧ hdr.id = 0xffff#16 ∧ bytesLeftInBlock < 6 + len then { hdr with id := 1 } else hdr

/-- `mtdconfig_setconfig` from `retry_find` to the consolidation. -/
def findplace (mem : Flash) (hdr : Header) (len : ℕ) : Place × Header :=
  let first := findfirstentry g mem hdr
  let offset := first.1
  let hdr := simulateActive g offset first.2 len
  if hdr.id ≠ 0xffff#16 then
    let next := findnextentry g mem offset hdr (len % 2 ^ 16)
    (if next.1 = 0 then .full else .at next.1, next.2)
  else (if 0 < offset then .at offset else .none, hdr)

def saveEntry (mem : Flash) (offset : ℕ) (item : Item) (data : List Byte) : Result × Flash :=
  let hdr : Header := { flags := 0xff#8, inst := BitVec.ofInt 8 item.inst, id := item.id
                        len := BitVec.ofNat 16 data.length }
  match writebytes g mem offset hdr.bytes with
  | none => (.failed .eio, mem)
  | some mem =>
    match writebytes g mem (offset + 6) data with
    | none => (.failed .eio, (writebytes g mem offset [0xff#8]).getD mem)
    | some mem => (.ok, mem)

def releaseEntry (mem : Flash) (offset : ℕ) (hdr : Header) (item : Item) : Flash :=
  if 0 < offset ∧ hdr.Matches item then (writebytes g mem offset [0x00#8]).getD mem else mem

/-- With one erase block only, consolidation is assisted by memory. -/
def reclaim (pbuf : Bool) (mem : Flash) : Flash :=
  if g.ramConsolidate ∨ g.neraseblocks = 1 then ramconsolidate g pbuf mem
  else consolidate g pbuf mem

/-- What follows the release; `ret` is what the format has left. -/
def setData (memory : Memory) (ret : Result) (mem : Flash) (hdr : Header) (item : Item)
    (data : List Byte) : Result × Flash :=
  if data.length = 0 then (.ok, mem)
  else match findplace g mem hdr data.length with
    | (.at offset, _) => saveEntry g mem offset item data
    | (.none, _) => (ret, mem)
    | (.full, hdr) =>
      let mem := reclaim g memory.pbuf mem
      match findplace g mem hdr data.length with
      | (.at offset, _) => saveEntry g mem offset item data
      | (.none, _) => (ret, mem)
      | (.full, _) => (.failed .enomem, mem)

/-- The first entry, of a device that is formatted now if it was not before. -/
def findFormatted (mem : Flash) (hdr : Header) : (ℕ × Header) × Result × Flash :=
  let first := findfirstentry g mem hdr
  if first.1 = 0 then
    let erased : Flash := fun _ => 0xff#8
    let mem := (writebytes g erased 0 sig).getD erased
    (findfirstentry g mem first.2, .count sig.length, mem)
  else (first, .failed .enosys, mem)

def setconfig (memory : Memory) (mem : Flash) (hdr : Header) (item : Item) (data : List Byte) :
    Result × Flash :=
  if memory.buffer then
    let (first, ret, mem) := findFormatted g mem hdr
    if first.1 = 0 then (.failed .enosys, mem)
    else
      let found := findentry g mem first.1 item first.2
      let mem := releaseEntry g mem found.1 found.2 item
      setData g memory ret mem found.2 item data
  else (.failed .enomem, mem)

/-- The data, cut to the length of the caller's buffer, and the length of the item. -/
def getconfig (buffer : Bool) (mem : Flash) (hdr : Header) (item : Item) (buflen : ℕ) :
    Except Errno (List Byte × ℕ) :=
  if buffer then
    let first := findfirstentry g mem hdr
    let found := findentry g mem first.1 item first.2
    if 0 < found.1 ∧ found.2.Matches item then
      match readbytes g mem (found.1 + 6) (min found.2.len.toNat buflen) with
      | none => .error .eio
      | some data => .ok (data, found.2.len.toNat)
    else .error .enosys
  else .error .enomem

def deleteconfig (buffer : Bool) (mem : Flash) (hdr : Header) (item : Item) : Result × Flash :=
  if buffer then
    let first := findfirstentry g mem hdr
    let found := findentry g mem first.1 item first.2
    if 0 < found.1 ∧ found.2.Matches item then
      (.ok, releaseEntry g mem found.1 found.2 item)
    else (.failed .enoent, mem)
  else (.failed .enomem, mem)

end NuttxRtos.Mtdconfig
