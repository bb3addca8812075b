import NuttxRtos.Lib.Word

/-!
# The granule allocator

The functions of `mm/mm_gran` on a 32-bit target. The granule allocation table is a function from
word indices to words; those behind the last valid one have any contents.
-/

namespace NuttxRtos.Gran

open Word

/-- `struct gran_s` without the lock. -/
structure GranS where
  log2gran : ℕ
  ngranules : ℕ
  heapstart : ℕ
  gat : ℕ → BitVec 32

def granMask (ngranules : ℕ) : BitVec 32 := 0xffffffff#32 >>> (32 - ngranules)

def granCount (priv : GranS) (size : ℕ) : ℕ :=
  add32 size (2 ^ priv.log2gran - 1) >>> priv.log2gran

/-- Change `n` table bits from granule `granno` on: `one` changes a word by a mask. -/
def changeBits (one : BitVec 32 → BitVec 32 → BitVec 32) (priv : GranS) (granno n : ℕ) : GranS :=
  let gatidx := granno >>> 5
  let gatbit := granno % 32
  let avail := 32 - gatbit
  if avail < n then
    let first := one (priv.gat gatidx) (0xffffffff#32 <<< gatbit)
    let gat := Function.update priv.gat gatidx first
    let second := one (gat (gatidx + 1)) (granMask (n - avail))
    { priv with gat := Function.update gat (gatidx + 1) second }
  else
    let word := one (priv.gat gatidx) (granMask n <<< gatbit)
    { priv with gat := Function.update priv.gat gatidx word }

def granNo (priv : GranS) (memory : ℕ) : ℕ := sub32 memory priv.heapstart >>> priv.log2gran

def granMarkAllocated (priv : GranS) (alloc ngranules : ℕ) : GranS :=
  changeBits (fun word mask => word ||| mask) priv (granNo priv alloc) ngranules

def granFree (priv : GranS) (memory size : ℕ) : GranS :=
  changeBits (fun word mask => word &&& ~~~mask) priv (granNo priv memory) (granCount priv size)

/-- How far the inner loop moves on, or `none` when the allocation starts here. -/
def searchShift (mask curr : BitVec 32) : Option ℕ :=
  if curr &&& 0x0000ffff#32 = 0x0000ffff#32 then some 16
  else if curr &&& 0x000000ff#32 = 0x000000ff#32 then some 8
  else if curr &&& 0x0000000f#32 = 0x0000000f#32 then some 4
  else if curr &&& 0x00000003#32 = 0x00000003#32 then some 2
  else if curr &&& mask = 0#32 then none
  else some 1

/-- The inner loop of `gran_alloc` from the bit `bitidx` of a table entry on; `bitidx` grows in
every round, so `32 - bitidx` rounds are enough. -/
def searchEntry (priv : GranS) (ngranules granidx : ℕ) :
    ℕ → ℕ → BitVec 32 → BitVec 32 → ℕ → Option ℕ
  | 0, _, _, _, _ => none
  | fuel + 1, bitidx, curr, next, alloc =>
    if bitidx < 32 ∧ granidx + bitidx + ngranules ≤ priv.ngranules then
      if curr = 0xffffffff#32 then none
      else
        match searchShift (granMask ngranules) curr with
        | none => some alloc
        | some shift =>
          searchEntry priv ngranules granidx fuel (bitidx + shift)
            (curr >>> shift ||| next <<< (32 - shift)) (next >>> shift)
            (add32 alloc (shift * 2 ^ priv.log2gran))
    else none

/-- The outer loop of `gran_alloc`, with `n` table entries left. The test for the last entry
compares `granidx` again, so `next` always comes from the table. -/
def searchTable (priv : GranS) (ngranules : ℕ) : ℕ → ℕ → Option ℕ
  | 0, _ => none
  | n + 1, gatidx =>
    let granidx := 32 * gatidx
    let curr := priv.gat gatidx
    if curr = 0xffffffff#32 then searchTable priv ngranules n (gatidx + 1)
    else
      let next := if granidx < priv.ngranules then priv.gat (gatidx + 1) else 0xffffffff#32
      match searchEntry priv ngranules granidx 32 0 curr next
        (add32 priv.heapstart (granidx * 2 ^ priv.log2gran % 2 ^ 32)) with
      | some alloc => some alloc
      | none => searchTable priv ngranules n (gatidx + 1)

def sizeofGat (n : ℕ) : ℕ := (n + 31) >>> 5

/-- `gran_alloc`; a null pointer is zero. -/
def granAlloc (priv : GranS) (size : ℕ) : GranS × ℕ :=
  if 0 < size then
    let ngranules := granCount priv size
    match searchTable priv ngranules (sizeofGat priv.ngranules) 0 with
    | some alloc => (granMarkAllocated priv alloc ngranules, alloc)
    | none => (priv, 0)
  else (priv, 0)

/-- `gran_initialize`, with `gat` the memory behind the table; the table itself is cleared. -/
def granInitialize (gat : ℕ → BitVec 32) (heapstart heapsize log2gran log2align : ℕ) : GranS :=
  let mask := 2 ^ log2align - 1
  let alignedstart := add32 heapstart mask &&& not32 mask
  let heapend := add32 heapstart heapsize
  let alignedsize := sub32 heapend alignedstart &&& not32 (2 ^ log2gran - 1)
  let ngranules := alignedsize >>> log2gran
  { log2gran := log2gran
    ngranules := ngranules % 2 ^ 16
    heapstart := alignedstart
    gat := fun i => if i < sizeofGat ngranules then 0 else gat i }

end NuttxRtos.Gran
