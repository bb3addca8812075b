import Mathlib.Algebra.Order.Ring.Int

/-!
# The Hamming code of NAND pages

The functions of `drivers/mtd/hamming.c`. Data and codes lie in buffers of bytes, and a pointer is a
buffer with an index.
-/

namespace NuttxRtos.Hamming

abbrev Byte := BitVec 8

abbrev Buffer := ℕ → Byte

structure Code where
  byte0 : Byte
  byte1 : Byte
  byte2 : Byte
  deriving DecidableEq

def Code.xor (c d : Code) : Code := ⟨c.byte0 ^^^ d.byte0, c.byte1 ^^^ d.byte1, c.byte2 ^^^ d.byte2⟩

/-- `HAMMING_SUCCESS` and the three `HAMMING_ERROR_` codes. -/
inductive Status where
  | success
  | singlebit
  | ecc
  | multiplebits
  deriving DecidableEq, Repr

def Status.toInt : Status → ℤ
  | .success => 0
  | .singlebit => 1
  | .ecc => 2
  | .multiplebits => 3

/-! ## Counting bits -/

def bitsLoop : ℕ → Byte → ℕ → ℕ
  | 0, _, count => count
  | fuel + 1, byte, count =>
    if byte ≠ 0 then bitsLoop fuel (byte >>> 1) (if byte &&& 1 ≠ 0 then count + 1 else count)
    else count

/-- A byte is zero after eight shifts. -/
def hammingBitsinbyte (byte : Byte) : ℕ := bitsLoop 8 byte 0

def hammingBitsincode256 (code : Code) : ℕ :=
  hammingBitsinbyte code.byte0 + hammingBitsinbyte code.byte1 + hammingBitsinbyte code.byte2

/-! ## Computing a code -/

def pick (condition : Bool) (v : Byte) : Byte := if condition then v else 0

/-- What the first loop of `hamming_compute256` collects. -/
structure Lines where
  colsum : Byte
  evenline : Byte
  oddline : Byte

def lineStep (data : Buffer) (base : ℕ) (l : Lines) (i : ℕ) : Lines :=
  let odd := hammingBitsinbyte (data (base + i)) % 2 == 1
  { colsum := l.colsum ^^^ data (base + i)
    evenline := l.evenline ^^^ pick odd (BitVec.ofNat 8 (255 - i))
    oddline := l.oddline ^^^ pick odd (BitVec.ofNat 8 i) }

def lines (data : Buffer) (base : ℕ) : Lines :=
  (List.range 256).foldl (lineStep data base) ⟨0, 0, 0⟩

/-- What the loop over the columns works on. -/
structure Columns where
  colsum : Byte
  evencol : Byte
  oddcol : Byte

def columnStep (c : Columns) (i : ℕ) : Columns :=
  let odd := c.colsum &&& 1 != 0
  { colsum := c.colsum >>> 1
    evencol := c.evencol ^^^ pick odd (BitVec.ofNat 8 (7 - i))
    oddcol := c.oddcol ^^^ pick odd (BitVec.ofNat 8 i) }

def columns (colsum : Byte) : Columns := (List.range 8).foldl columnStep ⟨colsum, 0, 0⟩

/-- What the loop that interleaves the parities works on. -/
structure Layout where
  code : Code
  oddline : Byte
  evenline : Byte
  oddcol : Byte
  evencol : Byte

/-- The next two bits of a byte of the code. -/
def pairBits (code odd even mask : Byte) : Byte :=
  code <<< 2 ||| pick (odd &&& mask != 0) 2 ||| pick (even &&& mask != 0) 1

def layoutStep (l : Layout) : Layout where
  code := ⟨pairBits l.code.byte0 l.oddline l.evenline 0x80,
    pairBits l.code.byte1 l.oddline l.evenline 0x08, pairBits l.code.byte2 l.oddcol l.evencol 0x04⟩
  oddline := l.oddline <<< 1
  evenline := l.evenline <<< 1
  oddcol := l.oddcol <<< 1
  evencol := l.evencol <<< 1

def parityCode (data : Buffer) (base : ℕ) : Code :=
  let l := lines data base
  let c := columns l.colsum
  (layoutStep^[4] ⟨⟨0, 0, 0⟩, l.oddline, l.evenline, c.oddcol, c.evencol⟩).code

def hammingCompute256 (data : Buffer) (base : ℕ) : Code :=
  let code := parityCode data base
  ⟨~~~code.byte0, ~~~code.byte1, ~~~code.byte2⟩

/-! ## Verifying a code -/

def correctionByte (c : Code) : Byte :=
  (c.byte0 &&& 0x80) ||| (c.byte0 <<< 1 &&& 0x40) ||| (c.byte0 <<< 2 &&& 0x20) |||
    (c.byte0 <<< 3 &&& 0x10) ||| (c.byte1 >>> 4 &&& 0x08) ||| (c.byte1 >>> 3 &&& 0x04) |||
    (c.byte1 >>> 2 &&& 0x02) ||| (c.byte1 >>> 1 &&& 0x01)

def correctionBit (c : Code) : Byte :=
  (c.byte2 >>> 5 &&& 0x04) ||| (c.byte2 >>> 4 &&& 0x02) ||| (c.byte2 >>> 3 &&& 0x01)

/-- The status, and the buffer with the corrected data. -/
def hammingVerify256 (data : Buffer) (base : ℕ) (original : Code) : Status × Buffer :=
  let correction := (hammingCompute256 data base).xor original
  if correction = ⟨0, 0, 0⟩ then (.success, data)
  else if hammingBitsincode256 correction = 11 then
    let byte := base + (correctionByte correction).toNat
    (.singlebit,
      Function.update data byte (data byte ^^^ (1 : Byte) <<< (correctionBit correction).toNat))
  else if hammingBitsincode256 correction = 1 then (.ecc, data)
  else (.multiplebits, data)

/-! ## Several blocks -/

def toSsize (size : ℕ) : ℤ := ((size : ℤ) + 2 ^ 31) % 2 ^ 32 - 2 ^ 31

def loadCode (code : Buffer) (base : ℕ) : Code := ⟨code base, code (base + 1), code (base + 2)⟩

def storeCode (code : Buffer) (base : ℕ) (c : Code) : Buffer := fun i =>
  if i = base then c.byte0 else if i = base + 1 then c.byte1 else if i = base + 2 then c.byte2
  else code i

def computeLoop (remaining : ℤ) (data : Buffer) (base : ℕ) (code : Buffer) (cbase : ℕ) : Buffer :=
  if 0 < remaining then
    computeLoop (remaining - 256) data (base + 256)
      (storeCode code cbase (hammingCompute256 data base)) (cbase + 3)
  else code
termination_by remaining.toNat
decreasing_by omega

def hammingCompute256x (data : Buffer) (size : ℕ) (code : Buffer) : Buffer :=
  computeLoop (toSsize size) data 0 code 0

def verifyLoop (remaining : ℤ) (data : Buffer) (base : ℕ) (code : Buffer) (cbase : ℕ) (ret : ℤ) :
    ℤ × Buffer :=
  if 0 < remaining then
    let verified := hammingVerify256 data base (loadCode code cbase)
    if verified.1 ≠ .success then
      if verified.1 = .singlebit then
        verifyLoop (remaining - 256) verified.2 (base + 256) code (cbase + 3) verified.1.toInt
      else (verified.1.toInt, verified.2)
    else verifyLoop (remaining - 256) verified.2 (base + 256) code (cbase + 3) ret
  else (ret, data)
termination_by remaining.toNat
decreasing_by all_goals omega

/-- `hamming_verify256x`. The source does not initialize `ret`, which it returns: `garbage` is what
happens to be there. -/
def hammingVerify256x (garbage : ℤ) (data : Buffer) (size : ℕ) (code : Buffer) : ℤ × Buffer :=
  verifyLoop (toSsize size) data 0 code 0 garbage

end NuttxRtos.Hamming
