import NuttxRtos.Fat.Model

/-!
# Entries of a FAT in memory

The three encodings of an entry, over any memory of bytes: an entry that is written is read back,
and no other entry changes, although two FAT12 entries share a byte.
-/

namespace NuttxRtos.Fat

def entry (type : FatType) (mem : ℕ → Byte) (cluster : ℕ) : ℕ :=
  match type with
  | .fat12 =>
    let offset := cluster * 3 / 2
    let value := (mem offset).toNat + (mem (offset + 1)).toNat * 2 ^ 8
    if cluster % 2 = 1 then value / 2 ^ 4 else value % 2 ^ 12
  | .fat16 => (mem (2 * cluster)).toNat + (mem (2 * cluster + 1)).toNat * 2 ^ 8
  | .fat32 =>
    ((mem (4 * cluster)).toNat + (mem (4 * cluster + 1)).toNat * 2 ^ 8 +
      (mem (4 * cluster + 2)).toNat * 2 ^ 16 + (mem (4 * cluster + 3)).toNat * 2 ^ 24) % 2 ^ 28

def putEntry (type : FatType) (mem : ℕ → Byte) (cluster value : ℕ) : ℕ → Byte :=
  match type with
  | .fat12 =>
    let offset := cluster * 3 / 2
    let low :=
      if cluster % 2 = 1 then (mem offset).toNat % 2 ^ 4 + value % 2 ^ 4 * 2 ^ 4 else value % 2 ^ 8
    let high :=
      if cluster % 2 = 1 then value / 2 ^ 4 % 2 ^ 8
      else (mem (offset + 1)).toNat / 2 ^ 4 * 2 ^ 4 + value / 2 ^ 8 % 2 ^ 4
    setByte (setByte mem offset (BitVec.ofNat 8 low)) (offset + 1) (BitVec.ofNat 8 high)
  | .fat16 =>
    setByte (setByte mem (2 * cluster) (BitVec.ofNat 8 value)) (2 * cluster + 1)
      (BitVec.ofNat 8 (value / 2 ^ 8))
  | .fat32 =>
    let top := (mem (4 * cluster + 3)).toNat / 2 ^ 4 * 2 ^ 4
    let mem := setByte mem (4 * cluster) (BitVec.ofNat 8 value)
    let mem := setByte mem (4 * cluster + 1) (BitVec.ofNat 8 (value / 2 ^ 8))
    let mem := setByte mem (4 * cluster + 2) (BitVec.ofNat 8 (value / 2 ^ 16))
    setByte mem (4 * cluster + 3) (BitVec.ofNat 8 (top + value / 2 ^ 24 % 2 ^ 4))

variable (mem : ℕ → Byte) {cluster offset other : ℕ}

theorem setByte_same (index : ℕ) (value : Byte) :
    setByte mem index value index = value := if_pos rfl

theorem setByte_other {mem : ℕ → Byte} {index : ℕ} (ne : other ≠ index) (value : Byte) :
    setByte mem index value other = mem other := if_neg ne

theorem entry_congr {type : FatType} {mem mem' : ℕ → Byte} {nclusters : ℕ}
    (lt : cluster < nclusters) (same : ∀ offset < type.bytes nclusters, mem' offset = mem offset) :
    entry type mem' cluster = entry type mem cluster := by
  cases type with
  | fat12 | fat16 =>
    simp only [FatType.bytes] at same
    simp only [entry]
    rw [same _ (by omega), same _ (by omega)]
  | fat32 =>
    simp only [FatType.bytes] at same
    simp only [entry]
    rw [same _ (by omega), same _ (by omega), same _ (by omega), same _ (by omega)]

theorem toNat_ofNat8 (value : ℕ) : (BitVec.ofNat 8 value).toNat = value % 2 ^ 8 :=
  BitVec.toNat_ofNat value 8

theorem entry_putEntry_same (type : FatType) (mem : ℕ → Byte) (cluster value : ℕ) :
    entry type (putEntry type mem cluster value) cluster = value % type.range := by
  cases type with
  | fat12 =>
    simp only [entry, putEntry, FatType.range, setByte_same,
      setByte_other (show cluster * 3 / 2 ≠ cluster * 3 / 2 + 1 by omega), toNat_ofNat8]
    split <;> omega
  | fat16 =>
    simp only [entry, putEntry, FatType.range, setByte_same,
      setByte_other (show 2 * cluster ≠ 2 * cluster + 1 by omega), toNat_ofNat8]
    omega
  | fat32 =>
    simp only [entry, putEntry, FatType.range, setByte]
    simp
    omega

/-- The bytes of other entries are left alone, one half byte of FAT12 apart. -/
theorem putEntry_frame12 (value : ℕ)
    (low : offset ≠ cluster * 3 / 2) (high : offset ≠ cluster * 3 / 2 + 1) :
    putEntry .fat12 mem cluster value offset = mem offset := by
  simp only [putEntry]
  rw [setByte_other high, setByte_other low]

theorem putEntry_frame32 (value : ℕ) (out : offset < 4 * cluster ∨ 4 * cluster + 3 < offset) :
    putEntry .fat32 mem cluster value offset = mem offset := by
  simp only [putEntry]
  rw [setByte_other (by omega), setByte_other (by omega), setByte_other (by omega),
    setByte_other (by omega)]

theorem entry12_putEntry_other (ne : other ≠ cluster)
    (value : ℕ) : entry .fat12 (putEntry .fat12 mem cluster value) other =
      entry .fat12 mem other := by
  by_cases after : cluster % 2 = 0 ∧ other = cluster + 1
  · -- the low half of the shared byte belongs to the even cluster
    obtain ⟨even, rfl⟩ := after
    have shared : (cluster + 1) * 3 / 2 = cluster * 3 / 2 + 1 := by omega
    have written : (putEntry .fat12 mem cluster value (cluster * 3 / 2 + 1)).toNat / 2 ^ 4 =
        (mem (cluster * 3 / 2 + 1)).toNat / 2 ^ 4 := by
      simp only [putEntry, setByte_same, if_neg (show ¬ cluster % 2 = 1 by omega), toNat_ofNat8]
      omega
    simp only [entry, if_pos (show (cluster + 1) % 2 = 1 by omega), shared]
    rw [putEntry_frame12 mem value (show cluster * 3 / 2 + 1 + 1 ≠ cluster * 3 / 2 by omega)
      (by omega)]
    omega
  by_cases before : cluster % 2 = 1 ∧ other + 1 = cluster
  · obtain ⟨odd, rfl⟩ := before
    have shared : (other + 1) * 3 / 2 = other * 3 / 2 + 1 := by omega
    have written : (putEntry .fat12 mem (other + 1) value (other * 3 / 2 + 1)).toNat % 2 ^ 4 =
        (mem (other * 3 / 2 + 1)).toNat % 2 ^ 4 := by
      simp only [putEntry, shared, setByte_same, if_pos odd,
        setByte_other (show other * 3 / 2 + 1 ≠ other * 3 / 2 + 1 + 1 by omega), toNat_ofNat8]
      omega
    simp only [entry, if_neg (show ¬ other % 2 = 1 by omega)]
    rw [putEntry_frame12 mem value (by omega) (by omega)]
    omega
  simp only [entry]
  rw [putEntry_frame12 mem value (by omega) (by omega),
    putEntry_frame12 mem value (by omega) (by omega)]

theorem entry_putEntry_other (type : FatType) (mem : ℕ → Byte) (ne : other ≠ cluster) (value : ℕ) :
    entry type (putEntry type mem cluster value) other = entry type mem other := by
  cases type with
  | fat12 => exact entry12_putEntry_other mem ne value
  | fat16 =>
    simp only [entry, putEntry]
    rw [setByte_other (by omega), setByte_other (by omega), setByte_other (by omega),
      setByte_other (by omega)]
  | fat32 =>
    simp only [entry]
    rw [putEntry_frame32 mem value (by omega), putEntry_frame32 mem value (by omega),
      putEntry_frame32 mem value (by omega), putEntry_frame32 mem value (by omega)]

end NuttxRtos.Fat
