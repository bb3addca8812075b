import Mathlib.Algebra.BigOperators.Group.List.Basic
import NuttxRtos.Mtdconfig.Model

/-!
# Entries in the erase blocks

What is on a device in use: every erase block has its header, entries one behind the other, and
erased bytes to its end. The writes and erasures of the driver change one block each.
-/

namespace NuttxRtos.Mtdconfig

open Segment List

/-- An entry of the store. An erased id marks the end of the entries, so no entry has it. -/
structure Entry where
  released : Bool
  inst : Byte
  id : BitVec 16
  data : List Byte
  id_ne : id ≠ 0xffff#16
  data_ne : data ≠ []
  short : data.length < 2 ^ 16

def Header.erased : Header := { flags := 0xff#8, inst := 0xff#8, id := 0xffff#16, len := 0xffff#16 }

theorem Header.erased_flags : Header.erased.flags = 0xff#8 := rfl

theorem Header.erased_id : Header.erased.id = 0xffff#16 := rfl

namespace Entry

def header (e : Entry) : Header :=
  { flags := if e.released then 0x00#8 else 0xff#8, inst := e.inst, id := e.id
    len := BitVec.ofNat 16 e.data.length }

def item (e : Entry) : Item := ⟨e.id, e.inst.toNat⟩

def release (e : Entry) : Entry := { e with released := true }

def bytes (e : Entry) : List Byte := e.header.bytes ++ e.data

def size (e : Entry) : ℕ := 6 + e.data.length

theorem size_gt (e : Entry) : 6 < e.size :=
  Nat.lt_add_of_pos_right (length_pos_iff.mpr e.data_ne)

@[simp] theorem header_len (e : Entry) : e.header.len.toNat = e.data.length := by
  unfold header
  rw [BitVec.toNat_ofNat, Nat.mod_eq_of_lt e.short]

@[simp] theorem header_id (e : Entry) : e.header.id = e.id := rfl

theorem flags_eq (e : Entry) : e.header.flags = 0xff#8 ↔ e.released = false := by
  cases released : e.released <;> simp [header, released]

@[simp] theorem length_bytes (e : Entry) : e.bytes.length = e.size := by
  unfold bytes size Header.bytes
  rw [length_append]
  rfl

theorem header_matches (e : Entry) (item : Item) : e.header.Matches item ↔ e.item = item := by
  cases item
  simp [Header.Matches, Entry.item, header]

end Entry

def total (es : List Entry) : ℕ := (es.map Entry.size).sum

@[simp] theorem total_nil : total [] = 0 := rfl

@[simp] theorem total_cons (e : Entry) (es : List Entry) : total (e :: es) = e.size +
    total es := rfl

@[simp] theorem total_append (es es' : List Entry) : total (es ++ es') = total es + total es' := by
  simp [total]

theorem total_release (before after : List Entry) (e : Entry) :
    total (before ++ e.release :: after) = total (before ++ e :: after) := by
  simp only [total_append, total_cons]
  rfl

theorem eq_nil_of_total_le {es : List Entry} (small : total es ≤ 6) : es = [] := by
  cases es with
  | nil => rfl
  | cons e es =>
    have := e.size_gt
    rw [total_cons] at small
    omega

def encode (es : List Entry) : List Byte := es.flatMap Entry.bytes

@[simp] theorem length_encode (es : List Entry) : (encode es).length = total es := by
  unfold encode total
  rw [length_flatMap]
  congr 1
  exact map_congr_left fun e _ => e.length_bytes

theorem encode_append (es es' : List Entry) : encode (es ++ es') = encode es ++ encode es' :=
  flatMap_append

theorem encode_cons (e : Entry) (es : List Entry) : encode (e :: es) = e.bytes ++ encode es :=
  flatMap_cons

/-! ## Reads and writes -/

theorem ofBytes_bytes (h : Header) : Header.ofBytes h.bytes = h := by
  have join : ∀ value : BitVec 16, value.extractLsb' 8 8 ++ value.extractLsb' 0 8 = value := by
    intro value
    rw [BitVec.extractLsb'_append_extractLsb'_eq_extractLsb' (by rfl)]
    exact BitVec.extractLsb'_eq_self
  unfold Header.ofBytes Header.bytes
  simp only [getD_cons_zero, getD_cons_succ, join]

variable {g : Geometry} {mem mem' : Flash} {b offset : ℕ} {es : List Entry}

theorem Geometry.end_eq (g : Geometry) (b : ℕ) :
    (b + 1) * g.erasesize = b * g.erasesize + g.erasesize :=
  Nat.succ_mul b g.erasesize

theorem Geometry.end_le_size (inside : b < g.neraseblocks) :
    b * g.erasesize + g.erasesize ≤ g.size := by
  rw [← g.end_eq]
  exact Nat.mul_le_mul_right _ inside

theorem Geometry.block_eq (g : Geometry) {i : ℕ} (low : b * g.erasesize ≤ i)
    (high : i < b * g.erasesize + g.erasesize) : i / g.erasesize = b :=
  Nat.div_eq_of_lt_le low (by rw [g.end_eq]; exact high)

theorem readHdr_of_at {h : Header} (held : At mem offset h.bytes) (inside : offset + 6 ≤ g.size) :
    readHdr g mem offset = some h := by
  unfold readHdr readbytes
  rw [if_pos inside, held.read (show h.bytes.length = 6 from rfl)]
  exact congrArg some (ofBytes_bytes h)

theorem writebytes_spec (g : Geometry) (mem : Flash) (offset : ℕ) (data : List Byte)
    (inside : offset + data.length ≤ g.size) :
    ∃ mem', writebytes g mem offset data = some mem' ∧
      (∀ i, i < offset ∨ offset + data.length ≤ i → mem' i = mem i) ∧
      ((∀ i, offset ≤ i → i < offset + data.length → mem i = 0xff#8) → At mem' offset data) := by
  refine ⟨_, if_pos inside, fun i outside => if_neg (by omega), fun blank => ?_⟩
  apply (at_getD data 0).move
  intro i low
  rw [if_pos (by omega), blank _ (by omega) (by omega), Nat.add_sub_cancel_left, Nat.zero_add]
  exact BitVec.allOnes_and (w := 8)

/-! ## Blocks -/

structure BlockAt (g : Geometry) (mem : Flash) (b : ℕ) (es : List Entry) : Prop where
  fits : 3 + total es ≤ g.erasesize
  entries : At mem (b * g.erasesize + 3) (encode es)
  blank : ∀ i, b * g.erasesize + 3 + total es ≤ i → i < b * g.erasesize + g.erasesize →
    mem i = 0xff#8

theorem BlockAt.congr (block : BlockAt g mem b es)
    (same : ∀ i, i / g.erasesize = b → mem' i = mem i) : BlockAt g mem' b es where
  fits := block.fits
  entries := by
    refine At.congr block.entries fun i low high => same i (g.block_eq (by omega) ?_)
    have := block.fits
    rw [length_encode] at high
    omega
  blank := fun i low high => by
    rw [same i (g.block_eq (by omega) high)]
    exact block.blank i low high

variable {e : Entry}

section

variable {before after : List Entry} (block : BlockAt g mem b (before ++ e :: after))

include block

theorem BlockAt.split :
    At mem (b * g.erasesize + 3 + total before) e.header.bytes ∧
      At mem (b * g.erasesize + 3 + total before + 6) e.data := by
  have held := block.entries
  rw [encode_append, encode_cons, at_append, at_append, length_encode] at held
  exact (at_append _ _ _ _).mp held.2.1

theorem BlockAt.fits_split : 3 + total before + e.size + total after ≤ g.erasesize := by
  have fits := block.fits
  rw [total_append, total_cons] at fits
  omega

theorem BlockAt.readHdr (inside : b < g.neraseblocks) :
    readHdr g mem (b * g.erasesize + 3 + total before) = some e.header := by
  have := block.fits_split
  have := e.size_gt
  have := Geometry.end_le_size inside
  exact readHdr_of_at block.split.1 (by omega)

theorem BlockAt.readData (inside : b < g.neraseblocks) :
    readbytes g mem (b * g.erasesize + 3 + total before + 6) e.data.length = some e.data := by
  have fits := block.fits_split
  have := Geometry.end_le_size inside
  unfold Entry.size at fits
  unfold readbytes
  rw [if_pos (by omega), block.split.2.read rfl]

end

theorem BlockAt.readHdr_blank (block : BlockAt g mem b es) (inside : b < g.neraseblocks)
    (room : 3 + total es + 6 ≤ g.erasesize) :
    Mtdconfig.readHdr g mem (b * g.erasesize + 3 + total es) = some .erased := by
  have := Geometry.end_le_size inside
  refine readHdr_of_at ?_ (by omega)
  have blank : ∀ k < 6, mem (b * g.erasesize + 3 + total es + k) = 0xff#8 :=
    fun k low => block.blank _ (by omega) (by omega)
  exact ⟨blank 0 (by omega), blank 1 (by omega), blank 2 (by omega), blank 3 (by omega),
    blank 4 (by omega), blank 5 (by omega), trivial⟩

theorem BlockAt.erase (g : Geometry) (mem : Flash) (b : ℕ) : BlockAt g (erase g mem b) b [] where
  fits := by
    have := g.roomy
    rw [total_nil]
    omega
  entries := trivial
  blank := fun i low high => if_pos (g.block_eq (by omega) high)

theorem erase_other {i : ℕ} (other : i / g.erasesize ≠ b) : erase g mem b i = mem i :=
  if_neg other

theorem BlockAt.copyBlock0 (source : BlockAt g mem 0 es) (target : BlockAt g mem b [])  :
    BlockAt g (copyBlock0 g mem b) b es := by
  have copied : ∀ k, 3 ≤ k → k < g.erasesize →
      Mtdconfig.copyBlock0 g mem b (b * g.erasesize + k) = mem k := by
    intro k low high
    unfold Mtdconfig.copyBlock0
    rw [if_pos (g.block_eq (by omega) (by omega)),
      target.blank _ (by rw [total_nil]; omega) (by omega), Nat.mul_add_mod',
      Nat.mod_eq_of_lt high]
    exact BitVec.allOnes_and (w := 8)
  have fits := source.fits
  refine ⟨fits, source.entries.move fun i inside => ?_, fun i low high => ?_⟩
  · rw [length_encode] at inside
    rw [add_assoc, copied _ (by omega) (by omega), Nat.zero_mul, Nat.zero_add]
  obtain ⟨k, rfl⟩ : ∃ k, i = b * g.erasesize + k := ⟨i - b * g.erasesize, by omega⟩
  rw [copied k (by omega) (by omega)]
  exact source.blank k (by omega) (by omega)

theorem BlockAt.append (block : BlockAt g mem b es) (room : 3 + total es + e.size ≤ g.erasesize)
    (written : At mem' (b * g.erasesize + 3 + total es) e.bytes)
    (same : ∀ i, i < b * g.erasesize + 3 + total es ∨
      b * g.erasesize + 3 + total es + e.size ≤ i → mem' i = mem i) :
    BlockAt g mem' b (es ++ [e]) where
  fits := by
    rw [total_append, total_cons, total_nil]
    omega
  entries := by
    rw [encode_append, at_append, length_encode]
    refine ⟨block.entries.congr fun i low high => same i (.inl ?_), ?_⟩
    · rw [length_encode] at high
      omega
    · exact (at_append _ _ _ _).mpr ⟨written, trivial⟩
  blank := fun i low high => by
    rw [total_append, total_cons, total_nil] at low
    rw [same i (.inr (by omega))]
    exact block.blank i (by omega) high

theorem BlockAt.write (block : BlockAt g mem b es) (inside : b < g.neraseblocks)
    (room : 3 + total es + e.size ≤ g.erasesize) (place : offset = b * g.erasesize + 3 + total es) :
    ∃ mem₁ mem₂, writebytes g mem offset e.header.bytes = some mem₁ ∧
      writebytes g mem₁ (offset + 6) e.data = some mem₂ ∧ BlockAt g mem₂ b (es ++ [e]) ∧
      (∀ i, i / g.erasesize ≠ b → mem₂ i = mem i) ∧ ∀ i < 3, mem₂ i = mem i := by
  have fits := Geometry.end_le_size inside
  have size : e.size = 6 + e.data.length := rfl
  have six : e.header.bytes.length = 6 := rfl
  have blank := block.blank
  obtain ⟨mem₁, wrote₁, same₁, held₁⟩ :=
    writebytes_spec g mem offset e.header.bytes (by omega)
  obtain ⟨mem₂, wrote₂, same₂, held₂⟩ :=
    writebytes_spec g mem₁ (offset + 6) e.data (by omega)
  have header := held₁ fun i low high => blank i (by omega) (by omega)
  have data := held₂ fun i low high => by
    rw [same₁ i (by omega)]
    exact blank i (by omega) (by omega)
  have same : ∀ i, i < offset ∨ offset + e.size ≤ i → mem₂ i = mem i := by
    intro i outside
    rw [same₂ i (by omega), same₁ i (by omega)]
  refine ⟨mem₁, mem₂, wrote₁, wrote₂, block.append room ?_ (place ▸ same), ?_, ?_⟩
  · rw [← place]
    exact (at_append _ _ _ _).mpr
      ⟨header.congr fun i low high => same₂ i (by omega), data⟩
  · intro i other
    refine same i ?_
    by_cases before : i < offset
    · exact .inl before
    · refine .inr (Nat.le_of_not_lt fun high => other ?_)
      exact g.block_eq (by omega) (by omega)
  · intro i low
    exact same i (.inl (by omega))

theorem BlockAt.release {before after : List Entry} (block : BlockAt g mem b (before ++ e :: after))
    (written : mem' (b * g.erasesize + 3 + total before) = 0x00#8)
    (same : ∀ i, i ≠ b * g.erasesize + 3 + total before → mem' i = mem i) :
    BlockAt g mem' b (before ++ e.release :: after) where
  fits := by
    rw [total_release]
    exact block.fits
  entries := by
    have held := block.entries
    rw [encode_append, encode_cons, at_append, at_append, length_encode, e.length_bytes] at held
    obtain ⟨first, middle, last⟩ := held
    rw [encode_append, encode_cons, at_append, at_append, length_encode, Entry.length_bytes]
    refine ⟨first.congr fun i low high => same i ?_, ⟨written, ?_⟩,
      last.congr fun i low high => same i ?_⟩
    · rw [length_encode] at high
      omega
    · exact At.congr middle.2 fun i low high => same i (by omega)
    · have := e.size_gt
      omega
  blank := fun i low high => by
    have := e.size_gt
    rw [total_release] at low
    rw [same i (by rw [total_append, total_cons] at low; omega)]
    exact block.blank i low high

/-! ## The device -/

structure Repr (g : Geometry) (mem : Flash) (B : ℕ → List Entry) : Prop where
  signature : At mem 0 sig
  block : ∀ b < g.neraseblocks, BlockAt g mem b (B b)

theorem Repr.update {B : ℕ → List Entry} (repr : Repr g mem B) (changed : BlockAt g mem' b es)
    (same : ∀ i, i / g.erasesize ≠ b → mem' i = mem i) (low : ∀ i < 3, mem' i = mem i) :
    Repr g mem' (Function.update B b es) where
  signature := repr.signature.congr fun i _ high => low i (by simpa [sig] using high)
  block := fun d inside => by
    by_cases equal : d = b
    · subst equal
      rw [Function.update_self]
      exact changed
    · rw [Function.update_of_ne equal]
      exact (repr.block d inside).congr fun i home => same i (by omega)

end NuttxRtos.Mtdconfig
