import Mathlib.Data.List.Basic
import NuttxRtos.Hamming.Model

/-!
# Correction of one error, detection of two

The code before its inversion is linear in exclusive or, so the correction is the sum of one column
for each flipped bit, whatever the data. The columns are distinct and have 11 bits for a data bit
and one bit for a code bit.
-/

namespace NuttxRtos.Hamming

open List BitVec

/-! ## Linearity -/

def bufferXor (d e : Buffer) : Buffer := fun i => d i ^^^ e i

/-- The parity of the number of bits, as the exclusive or of the bits. -/
def parity (b : Byte) : Bool := (List.range 8).foldl (fun sum k => sum ^^ b.getLsbD k) false

def Tests (mask : Byte) (k : ℕ) : Prop := ∀ a : Byte, (a &&& mask != 0) = a.getLsbD k

theorem tests_twoPow {k : ℕ} (lt : k < 8) : Tests (BitVec.twoPow 8 k) k := by
  intro a
  rw [and_twoPow]
  cases a.getLsbD k with
  | false => rfl
  | true =>
    have set : (BitVec.twoPow 8 k).getLsbD k = true := by simp [lt]
    refine bne_iff_ne.2 fun zero => ?_
    change BitVec.twoPow 8 k = 0 at zero
    rw [zero] at set
    simp at set

theorem bitsLoop_odd (fuel : ℕ) (byte : Byte) (count : ℕ) (lt : byte.toNat < 2 ^ fuel) :
    (bitsLoop fuel byte count % 2 == 1) =
      (List.range fuel).foldl (fun sum k => sum ^^ byte.getLsbD k) (count % 2 == 1) := by
  induction fuel generalizing byte count with
  | zero => rfl
  | succ fuel ih =>
    have bit : (byte &&& 1 != 0) = byte.getLsbD 0 := tests_twoPow (by decide : 0 < 8) byte
    have half : (byte >>> 1).toNat < 2 ^ fuel := by
      rw [toNat_ushiftRight, Nat.shiftRight_eq_div_pow]
      omega
    rw [bitsLoop, range_succ_eq_map, foldl_cons, foldl_map]
    split
    · rw [ih _ _ half]
      simp only [getLsbD_ushiftRight, Nat.add_comm 1, Nat.succ_eq_add_one]
      congr 1
      rw [← bit]
      by_cases odd : byte &&& 1 = 0
      · rw [if_neg (not_not.2 odd), odd]
        simp
      rw [if_pos odd, bne_iff_ne.2 odd, Bool.xor_true]
      rcases Nat.mod_two_eq_zero_or_one count with even | odd
      · rw [Nat.add_mod, even]
        rfl
      · rw [Nat.add_mod, odd]
        rfl
    next zero =>
    obtain rfl : byte = 0 := Decidable.not_not.1 zero
    have none (k : ℕ) : (0 : Byte).getLsbD k = false := getLsbD_zero
    simp only [none, Bool.xor_false, foldl_const]
    exact (Function.iterate_id _ ▸ rfl)

theorem bitsinbyte_odd (b : Byte) : (hammingBitsinbyte b % 2 == 1) = parity b :=
  bitsLoop_odd 8 b 0 b.isLt

theorem parity_xor (a b : Byte) : parity (a ^^^ b) = (parity a ^^ parity b) := by
  refine foldl_hom₂ (List.range 8) Bool.xor (fun sum k => sum ^^ a.getLsbD k)
    (fun sum k => sum ^^ b.getLsbD k) (fun sum k => sum ^^ (a ^^^ b).getLsbD k) false false ?_
  intro p q k
  cases p <;> cases q <;> simp

theorem pick_xor (p q : Bool) (v : Byte) : pick (p ^^ q) v = pick p v ^^^ pick q v := by
  cases p <;> cases q <;> simp [pick]

def Lines.xor (l m : Lines) : Lines :=
  ⟨l.colsum ^^^ m.colsum, l.evenline ^^^ m.evenline, l.oddline ^^^ m.oddline⟩

theorem lineStep_xor (d e : Buffer) (base : ℕ) (l m : Lines) (i : ℕ) :
    (lineStep d base l i).xor (lineStep e base m i) =
      lineStep (bufferXor d e) base (l.xor m) i := by
  simp only [lineStep, Lines.xor, bufferXor, bitsinbyte_odd, parity_xor, pick_xor]
  congr 1 <;> ac_rfl

theorem lines_xor (d e : Buffer) (base : ℕ) :
    lines (bufferXor d e) base = (lines d base).xor (lines e base) := by
  exact foldl_hom₂ (List.range 256) Lines.xor (lineStep d base) (lineStep e base)
    (lineStep (bufferXor d e) base) ⟨0, 0, 0⟩ ⟨0, 0, 0⟩ (lineStep_xor d e base)

def Columns.xor (c d : Columns) : Columns :=
  ⟨c.colsum ^^^ d.colsum, c.evencol ^^^ d.evencol, c.oddcol ^^^ d.oddcol⟩

theorem tests_0x80 : Tests 0x80 7 := tests_twoPow (by decide : 7 < 8)

theorem tests_0x08 : Tests 0x08 3 := tests_twoPow (by decide : 3 < 8)

theorem tests_0x04 : Tests 0x04 2 := tests_twoPow (by decide : 2 < 8)

theorem tests_1 : Tests 1 0 := tests_twoPow (by decide : 0 < 8)

theorem columnStep_xor (c d : Columns) (i : ℕ) :
    (columnStep c i).xor (columnStep d i) = columnStep (c.xor d) i := by
  simp only [columnStep, Columns.xor, tests_1 _, getLsbD_xor, pick_xor, ushiftRight_xor_distrib]
  congr 1 <;> ac_rfl

theorem columns_xor (a b : Byte) : columns (a ^^^ b) = (columns a).xor (columns b) := by
  have start : (⟨a ^^^ b, 0, 0⟩ : Columns) = Columns.xor ⟨a, 0, 0⟩ ⟨b, 0, 0⟩ := by
    simp [Columns.xor]
  unfold columns
  rw [start]
  exact foldl_hom₂ (List.range 8) Columns.xor columnStep columnStep columnStep ⟨a, 0, 0⟩
    ⟨b, 0, 0⟩ columnStep_xor

theorem pairBits_eq (code odd even mask : Byte) :
    pairBits code odd even mask =
      code <<< 2 ^^^ (pick (odd &&& mask != 0) 2 ^^^ pick (even &&& mask != 0) 1) := by
  have apart : ∀ (p q : Bool) (code : Byte),
      code <<< 2 ||| pick p 2 ||| pick q 1 = code <<< 2 ^^^ (pick p 2 ^^^ pick q 1) := by
    decide +kernel
  exact apart _ _ code

theorem Tests.pairBits {mask : Byte} {k : ℕ} (tests : Tests mask k)
    (code code' odd odd' even even' : Byte) :
    pairBits code odd even mask ^^^ pairBits code' odd' even' mask =
      pairBits (code ^^^ code') (odd ^^^ odd') (even ^^^ even') mask := by
  simp only [pairBits_eq, tests _, getLsbD_xor, pick_xor, shiftLeft_xor_distrib]
  ac_rfl

def Layout.xor (l m : Layout) : Layout :=
  ⟨l.code.xor m.code, l.oddline ^^^ m.oddline, l.evenline ^^^ m.evenline, l.oddcol ^^^ m.oddcol,
    l.evencol ^^^ m.evencol⟩

theorem layoutStep_xor (l m : Layout) :
    (layoutStep l).xor (layoutStep m) = layoutStep (l.xor m) := by
  simp only [layoutStep, Layout.xor, Code.xor, tests_0x80.pairBits, tests_0x08.pairBits,
    tests_0x04.pairBits, shiftLeft_xor_distrib]

theorem layout_xor (n : ℕ) (l m : Layout) :
    layoutStep^[n] (l.xor m) = (layoutStep^[n] l).xor (layoutStep^[n] m) := by
  induction n generalizing l m with
  | zero => rfl
  | succ n ih => simp only [Function.iterate_succ_apply, ← layoutStep_xor, ih]

theorem parityCode_xor (d e : Buffer) (base : ℕ) :
    parityCode (bufferXor d e) base = (parityCode d base).xor (parityCode e base) := by
  simp only [parityCode, lines_xor]
  simp only [Lines.xor, columns_xor, Columns.xor]
  have zero : (⟨0, 0, 0⟩ : Code) = Code.xor ⟨0, 0, 0⟩ ⟨0, 0, 0⟩ := rfl
  rw [zero]
  exact congrArg Layout.code (layout_xor 4 ⟨_, _, _, _, _⟩ ⟨_, _, _, _, _⟩)

/-! ## The columns of the code -/

def unit (byte j : ℕ) : Buffer := fun i => if i = byte then (1 : Byte) <<< j else 0

theorem parity_shift : ∀ j : Fin 8, parity ((1 : Byte) <<< j.val) = true := by
  decide

theorem lineStep_zero {data : Buffer} {base i : ℕ} (zero : data (base + i) = 0) (l : Lines) :
    lineStep data base l i = l := by
  simp [lineStep, zero, pick, hammingBitsinbyte, bitsLoop]

theorem lines_unit (base : ℕ) (k : Fin 256) (j : Fin 8) :
    lines (unit (base + k) j) base =
      ⟨(1 : Byte) <<< j.val, BitVec.ofNat 8 (255 - k), BitVec.ofNat 8 k⟩ := by
  have upto : ∀ n, (List.range n).foldl (lineStep (unit (base + k) j) base) ⟨0, 0, 0⟩ =
      if k < n then ⟨(1 : Byte) <<< j.val, BitVec.ofNat 8 (255 - k),
        BitVec.ofNat 8 k⟩ else ⟨0, 0, 0⟩ := by
    intro n
    induction n with
    | zero => rfl
    | succ n ih =>
      rw [range_succ, foldl_append, ih]
      simp only [foldl_cons, foldl_nil]
      by_cases here : n = k
      · have set : unit (base + k) j (base + n) = (1 : Byte) <<< j.val := by simp [unit, here]
        rw [lineStep, set, bitsinbyte_odd, parity_shift, here]
        simp [pick]
      have clear : unit (base + k) j (base + n) = 0 := by
        apply if_neg
        omega
      rw [lineStep_zero clear]
      by_cases passed : k < n
      · rw [if_pos passed, if_pos (by omega)]
      · rw [if_neg passed, if_neg (by omega)]
  unfold lines
  rw [upto, if_pos k.isLt]

/-- What a data bit adds to the correction. -/
def dataColumn (k j : ℕ) : Code :=
  (layoutStep^[4] ⟨⟨0, 0, 0⟩, BitVec.ofNat 8 k, BitVec.ofNat 8 (255 - k), BitVec.ofNat 8 j,
    BitVec.ofNat 8 (7 - j)⟩).code

/-- What a code bit adds to it. -/
def codeColumn (n : ℕ) : Code :=
  if n < 8 then ⟨(1 : Byte) <<< n, 0, 0⟩ else if n < 16 then ⟨0, (1 : Byte) <<< (n - 8), 0⟩
  else ⟨0, 0, (1 : Byte) <<< (n - 16)⟩

theorem codeColumn_bits : ∀ n : Fin 24, hammingBitsincode256 (codeColumn n) = 1 := by
  decide +kernel

theorem dataColumn_decodes (k : Fin 256) (j : Fin 8) :
    hammingBitsincode256 (dataColumn k j) = 11 ∧ (correctionByte (dataColumn k j)).toNat = k ∧
      (correctionBit (dataColumn k j)).toNat = j := by
  obtain ⟨line_bits, byte⟩ := (by decide +kernel : ∀ k : Fin 256, hammingBitsinbyte
    (dataColumn k 0).byte0 + hammingBitsinbyte (dataColumn k 0).byte1 = 8 ∧
      (correctionByte (dataColumn k 0)).toNat = k) k
  obtain ⟨column_bits, bit⟩ := (by decide +kernel : ∀ j : Fin 8,
    hammingBitsinbyte (dataColumn 0 j).byte2 = 3 ∧ (correctionBit (dataColumn 0 j)).toNat = j) j
  refine ⟨?_, byte, bit⟩
  change hammingBitsinbyte (dataColumn k 0).byte0 + hammingBitsinbyte (dataColumn k 0).byte1 +
    hammingBitsinbyte (dataColumn 0 j).byte2 = 11
  rw [line_bits, column_bits]

inductive Bit where
  | data (k : Fin 256) (j : Fin 8)
  | code (n : Fin 24)
  deriving DecidableEq

def Bit.column : Bit → Code
  | .data k j => dataColumn k j
  | .code n => codeColumn n

theorem Bit.column_injective {p q : Bit} (same : p.column = q.column) : p = q := by
  cases p with
  | data k j =>
    obtain ⟨bits, byte, bit⟩ := dataColumn_decodes k j
    cases q with
    | data l i =>
      obtain ⟨_, byte', bit'⟩ := dataColumn_decodes l i
      have same : dataColumn k j = dataColumn l i := same
      rw [same] at byte bit
      rw [Fin.ext (byte.symm.trans byte'), Fin.ext (bit.symm.trans bit')]
    | code n =>
      have same : dataColumn k j = codeColumn n := same
      rw [same, codeColumn_bits] at bits
      cases bits
  | code n =>
    cases q with
    | data l i =>
      have bits := (dataColumn_decodes l i).1
      have same : codeColumn n = dataColumn l i := same
      rw [← same, codeColumn_bits] at bits
      cases bits
    | code m =>
      have injective : ∀ n m : Fin 24, codeColumn n = codeColumn m → n = m := by decide +kernel
      rw [injective n m same]

theorem Bit.column_odd (p : Bit) : hammingBitsincode256 p.column % 2 = 1 := by
  cases p with
  | data k j =>
    rw [Bit.column, (dataColumn_decodes k j).1]
  | code n =>
    rw [Bit.column, codeColumn_bits]

/-! ## Flipped bits -/

def flip (base : ℕ) : Bit → Buffer × Code → Buffer × Code
  | .data k j, (data, code) => (bufferXor data (unit (base + k) j), code)
  | .code n, (data, code) => (data, code.xor (codeColumn n))

theorem correction_flip (base : ℕ) (p : Bit) (s : Buffer × Code) :
    (hammingCompute256 (flip base p s).1 base).xor (flip base p s).2 =
      ((hammingCompute256 s.1 base).xor s.2).xor p.column := by
  obtain ⟨data, code⟩ := s
  cases p with
  | data k j =>
    have shift : ∀ j : Fin 8, (columns ((1 : Byte) <<< j.val)).evencol = BitVec.ofNat 8 (7 - j) ∧
        (columns ((1 : Byte) <<< j.val)).oddcol = BitVec.ofNat 8 j := by decide
    have unit_code : parityCode (unit (base + k) j) base = dataColumn k j := by
      simp only [parityCode, lines_unit, shift, dataColumn]
    simp only [flip, hammingCompute256, parityCode_xor, unit_code, Code.xor, Bit.column,
      not_xor_left]
    congr 1 <;> ac_rfl
  | code n =>
    simp only [flip, Code.xor, Bit.column]
    congr 1 <;> ac_rfl

theorem bitsincode_xor (c d : Code) : hammingBitsincode256 (c.xor d) % 2 =
    (hammingBitsincode256 c + hammingBitsincode256 d) % 2 := by
  have byte : ∀ a b : Byte, hammingBitsinbyte (a ^^^ b) % 2 =
      (hammingBitsinbyte a + hammingBitsinbyte b) % 2 := by
    intro a b
    have odd := parity_xor a b
    rw [← bitsinbyte_odd, ← bitsinbyte_odd, ← bitsinbyte_odd] at odd
    rcases Nat.mod_two_eq_zero_or_one (hammingBitsinbyte a) with ha | ha <;>
      rcases Nat.mod_two_eq_zero_or_one (hammingBitsinbyte b) with hb | hb <;>
      rw [ha, hb] at odd <;> simp at odd <;> omega
  have byte0 := byte c.byte0 d.byte0
  have byte1 := byte c.byte1 d.byte1
  have byte2 := byte c.byte2 d.byte2
  simp only [hammingBitsincode256, Code.xor]
  omega

theorem Code.xor_self (c : Code) : c.xor c = ⟨0, 0, 0⟩ := by
  simp [Code.xor]

theorem Code.eq_of_xor {c d : Code} (zero : c.xor d = ⟨0, 0, 0⟩) : c = d := by
  simp only [Code.xor, Code.mk.injEq] at zero
  cases c
  cases d
  simp only [Code.mk.injEq]
  exact ⟨BitVec.xor_eq_zero_iff.1 zero.1, BitVec.xor_eq_zero_iff.1 zero.2.1,
    BitVec.xor_eq_zero_iff.1 zero.2.2⟩

theorem update_flipped (data : Buffer) (byte j : ℕ) :
    Function.update (bufferXor data (unit byte j)) byte
      (bufferXor data (unit byte j) byte ^^^ (1 : Byte) <<< j) = data := by
  funext i
  by_cases here : i = byte
  · subst here
    simp [bufferXor, unit, xor_assoc]
  · simp [bufferXor, unit, here]

theorem Bit.column_ne_zero (p : Bit) : p.column ≠ ⟨0, 0, 0⟩ := by
  intro zero
  have odd := p.column_odd
  rw [zero] at odd
  revert odd
  decide

section

variable (data : Buffer) (base : ℕ)

include data base

/-- One flipped bit leaves its column as the correction. -/
theorem correction_single (p : Bit) :
    (hammingCompute256 (flip base p (data, hammingCompute256 data base)).1 base).xor
      (flip base p (data, hammingCompute256 data base)).2 = p.column := by
  rw [correction_flip, Code.xor_self]
  simp [Code.xor]

theorem verify256_clean :
    hammingVerify256 data base (hammingCompute256 data base) = (.success, data) := by
  unfold hammingVerify256
  rw [Code.xor_self]
  rfl

theorem verify256_data (k : Fin 256) (j : Fin 8) :
    hammingVerify256 (flip base (.data k j) (data, hammingCompute256 data base)).1 base
      (flip base (.data k j) (data, hammingCompute256 data base)).2 = (.singlebit, data) := by
  obtain ⟨bits, byte, bit⟩ := dataColumn_decodes k j
  have bits : hammingBitsincode256 (Bit.data k j).column = 11 := bits
  unfold hammingVerify256
  simp only [correction_single]
  rw [if_neg (Bit.column_ne_zero _), if_pos bits]
  simp only [Bit.column, byte, bit, flip, update_flipped]

theorem verify256_code (n : Fin 24) :
    hammingVerify256 (flip base (.code n) (data, hammingCompute256 data base)).1 base
      (flip base (.code n) (data, hammingCompute256 data base)).2 = (.ecc, data) := by
  have bits : hammingBitsincode256 (Bit.code n).column = 1 := codeColumn_bits n
  unfold hammingVerify256
  simp only [correction_single]
  rw [if_neg (Bit.column_ne_zero _), if_neg (by omega), if_pos bits]
  rfl

theorem verify256_two {p q : Bit} (apart : p ≠ q) :
    hammingVerify256 (flip base p (flip base q (data, hammingCompute256 data base))).1 base
      (flip base p (flip base q (data, hammingCompute256 data base))).2 =
    (.multiplebits, (flip base p (flip base q (data, hammingCompute256 data base))).1) := by
  -- The two columns differ, and each has an odd number of bits.
  have different : q.column.xor p.column ≠ ⟨0, 0, 0⟩ := fun zero =>
    apart (Bit.column_injective (Code.eq_of_xor zero)).symm
  have even : hammingBitsincode256 (q.column.xor p.column) % 2 = 0 := by
    have odd_p := p.column_odd
    have odd_q := q.column_odd
    rw [bitsincode_xor]
    omega
  unfold hammingVerify256
  rw [correction_flip, correction_single]
  rw [if_neg different, if_neg (by omega), if_neg (by omega)]

end

/-- A block without an error verifies, one flipped data bit is corrected, one flipped code bit is
reported as such, and any two flipped bits are detected. -/
theorem verify256_flips (data : Buffer) (base : ℕ) :
    hammingVerify256 data base (hammingCompute256 data base) = (.success, data) ∧
    (∀ k j, hammingVerify256 (flip base (.data k j) (data, hammingCompute256 data base)).1 base
        (flip base (.data k j) (data, hammingCompute256 data base)).2 = (.singlebit, data)) ∧
    (∀ n, hammingVerify256 (flip base (.code n) (data, hammingCompute256 data base)).1 base
        (flip base (.code n) (data, hammingCompute256 data base)).2 = (.ecc, data)) ∧
    ∀ p q, p ≠ q →
      hammingVerify256 (flip base p (flip base q (data, hammingCompute256 data base))).1 base
        (flip base p (flip base q (data, hammingCompute256 data base))).2 =
      (.multiplebits, (flip base p (flip base q (data, hammingCompute256 data base))).1) :=
  ⟨verify256_clean data base, verify256_data data base, verify256_code data base,
    fun _ _ apart => verify256_two data base apart⟩

/-- A data bit and a code bit of a block of zeros. -/
theorem verify256_flips_two :
    (hammingVerify256 (flip 0 (.data 3 5) (flip 0 (.code 7) (fun _ => 0,
      hammingCompute256 (fun _ => 0) 0))).1 0 (flip 0 (.data 3 5) (flip 0 (.code 7) (fun _ => 0,
        hammingCompute256 (fun _ => 0) 0))).2).1 = .multiplebits := by
  rw [(verify256_flips (fun _ => 0) 0).2.2.2 (.data 3 5) (.code 7) (by decide)]

end NuttxRtos.Hamming
