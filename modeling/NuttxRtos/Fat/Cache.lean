import NuttxRtos.Fat.Entries

/-!
# The cache of the mount point

A sector is what the cache holds if it is the cached one, and what the device holds otherwise.
Through the cache the operations on FAT entries are those of a memory, and sectors outside the FAT
stay as they are.
-/

namespace NuttxRtos.Fat

variable {geo : Geometry} {vol vol' : Volume}

/-- The sector lies in a copy of the FAT other than the first. -/
def Geometry.InCopies (geo : Geometry) (sector : ℕ) : Prop :=
  geo.fatbase + geo.nfatsects ≤ sector ∧ sector < geo.fatbase + geo.fatnumfats * geo.nfatsects

instance (geo : Geometry) (sector : ℕ) : Decidable (geo.InCopies sector) :=
  inferInstanceAs (Decidable (_ ∧ _))

def content (vol : Volume) (sector i : ℕ) : Byte :=
  if sector = vol.currentsector then vol.buffer i else vol.disk sector i

/-- A clean cache agrees with the device, and a dirty one is not for a copy of the FAT. -/
structure Coherent (geo : Geometry) (vol : Volume) : Prop where
  clean : vol.dirty = false → ∀ i < geo.hwsectorsize, vol.disk vol.currentsector i = vol.buffer i
  place : vol.dirty = true → ¬ geo.InCopies vol.currentsector

/-- The sectors hold the same, the copies of the FAT apart, and the search for free clusters starts
at the same place. -/
structure SameContent (geo : Geometry) (vol vol' : Volume) : Prop where
  content : ∀ sector i, i < geo.hwsectorsize → ¬ geo.InCopies sector →
    content vol' sector i = content vol sector i
  nextfree : vol'.fsinextfree = vol.fsinextfree

theorem SameContent.refl (vol : Volume) : SameContent geo vol vol := ⟨fun _ _ _ _ => rfl, rfl⟩

theorem SameContent.trans {vol₁ vol₂ vol₃ : Volume} (h : SameContent geo vol₁ vol₂)
    (g : SameContent geo vol₂ vol₃) : SameContent geo vol₁ vol₃ :=
  ⟨fun sector i lt out => (g.content sector i lt out).trans (h.content sector i lt out),
    g.nextfree.trans h.nextfree⟩

variable {sector k offset a n value : ℕ}

theorem Geometry.InFat.not_copies (h : geo.InFat sector) : ¬ geo.InCopies sector := by
  intro copies
  have := h.2
  have := copies.1
  omega

/-! ## Flush and read -/

theorem flushCopies_spec (geo : Geometry) (copies : ℕ) (vol : Volume)
    (written : vol.disk vol.currentsector = vol.buffer) :
    (flushCopies geo copies vol).buffer = vol.buffer ∧
      (flushCopies geo copies vol).disk (flushCopies geo copies vol).currentsector = vol.buffer ∧
      (flushCopies geo copies vol).fsinextfree = vol.fsinextfree ∧
      ∀ sector, (∀ k < copies, sector ≠ vol.currentsector + (k + 1) * geo.nfatsects) →
        (flushCopies geo copies vol).disk sector = vol.disk sector := by
  induction copies generalizing vol with
  | zero => exact ⟨rfl, written, rfl, fun _ _ => rfl⟩
  | succ copies ih =>
    obtain ⟨buffer, disk, nextfree, frame⟩ := ih
      { hwwrite vol (vol.currentsector + geo.nfatsects) vol.buffer with
        currentsector := vol.currentsector + geo.nfatsects } (if_pos rfl)
    refine ⟨buffer, disk, nextfree, fun sector other => ?_⟩
    have first := other 0 (by omega)
    refine (frame sector fun k lt => ?_).trans (if_neg (by simpa using first))
    have := other (k + 1) (by omega)
    rw [Nat.add_mul, Nat.one_mul] at this
    rw [Nat.add_assoc, Nat.add_comm geo.nfatsects]
    exact this

theorem Geometry.InFat.copy (h : geo.InFat sector) (lt : k < geo.fatnumfats - 1) :
    geo.InCopies (sector + (k + 1) * geo.nfatsects) := by
  obtain ⟨low, high⟩ := h
  have : (k + 1 + 1) * geo.nfatsects ≤ geo.fatnumfats * geo.nfatsects :=
    Nat.mul_le_mul_right _ (by omega)
  rw [Nat.add_mul (k + 1) 1, Nat.one_mul] at this
  rw [Nat.add_mul, Nat.one_mul] at this
  constructor
  all_goals
    rw [Nat.add_mul, Nat.one_mul]
    omega

theorem fscacheflush_spec (coherent : vol.dirty = false →
      ∀ i < geo.hwsectorsize, vol.disk vol.currentsector i = vol.buffer i) :
    (fscacheflush geo vol).dirty = false ∧ (fscacheflush geo vol).fsinextfree = vol.fsinextfree ∧
      Coherent geo (fscacheflush geo vol) ∧
      ∀ sector i, i < geo.hwsectorsize → ¬ geo.InCopies sector →
        (fscacheflush geo vol).disk sector i = content vol sector i := by
  unfold fscacheflush
  split
  · next dirty =>
    have written : ∀ sector, (hwwrite vol vol.currentsector vol.buffer).disk sector =
        fun i => content vol sector i := by
      intro sector
      funext i
      simp only [hwwrite, content]
      split <;> rfl
    split
    · next fat =>
      obtain ⟨buffer, disk, nextfree, frame⟩ := flushCopies_spec geo (geo.fatnumfats - 1)
        (hwwrite vol vol.currentsector vol.buffer) (if_pos rfl)
      refine ⟨rfl, nextfree, ⟨fun _ i _ => ?_, nofun⟩, fun sector i _ out => ?_⟩
      · rw [disk, buffer]
      rw [frame sector, written]
      intro k lt eq
      exact out (eq ▸ fat.copy lt)
    refine ⟨rfl, rfl, ⟨fun _ i _ => ?_, nofun⟩, fun sector i _ _ => ?_⟩
    · simp [hwwrite]
    · rw [written]
  next clean =>
  have clean : vol.dirty = false := by simpa using clean
  refine ⟨clean, rfl, ⟨coherent, fun dirty => by simp [clean] at dirty⟩, fun sector i lt _ => ?_⟩
  unfold content
  split
  · next eq =>
    subst eq
    exact coherent clean i lt
  · rfl

theorem fscacheread_spec (coherent : Coherent geo vol) (sector : ℕ) :
    (fscacheread geo vol sector).currentsector = sector ∧
      Coherent geo (fscacheread geo vol sector) ∧
      SameContent geo vol (fscacheread geo vol sector) := by
  unfold fscacheread
  split
  · next eq => exact ⟨eq, coherent, .refl vol⟩
  obtain ⟨clean, nextfree, -, flushed⟩ := fscacheflush_spec coherent.clean
  refine ⟨rfl, ⟨fun _ i _ => rfl, fun dirty => ?_⟩, ⟨fun s i lt outS => ?_, nextfree⟩⟩
  · dsimp only at dirty
    rw [clean] at dirty
    exact absurd dirty Bool.false_ne_true
  rw [← flushed s i lt outS]
  simp only [content]
  split
  · next eq => rw [eq]
  · rfl

theorem putByte_spec (out : ¬ geo.InCopies vol.currentsector) (index : ℕ) (value : Byte) :
    Coherent geo (putByte vol index value) ∧
      ∀ sector i, content (putByte vol index value) sector i =
        if sector = vol.currentsector ∧ i = index then value else content vol sector i := by
  refine ⟨⟨nofun, fun _ => out⟩, fun sector i => ?_⟩
  simp only [content, putByte, setByte]
  by_cases same : sector = vol.currentsector
  · by_cases at_ : i = index <;> simp [same, at_]
  · simp [same]

/-! ## The FAT as a memory -/

def fatByte (geo : Geometry) (vol : Volume) (offset : ℕ) : Byte :=
  content vol (geo.fatbase + offset / geo.hwsectorsize) (offset % geo.hwsectorsize)

def fat (geo : Geometry) (vol : Volume) (cluster : ℕ) : ℕ :=
  entry geo.type (fatByte geo vol) cluster

theorem fatsector_inFat (lt : offset < geo.nfatsects * geo.hwsectorsize) :
    geo.InFat (geo.fatbase + offset / geo.hwsectorsize) := by
  have := Nat.div_lt_of_lt_mul (Nat.mul_comm _ _ ▸ lt)
  exact ⟨Nat.le_add_right _ _, Nat.add_lt_add_left this _⟩

theorem SameContent.fatByte (same : SameContent geo vol vol')
    (lt : offset < geo.nfatsects * geo.hwsectorsize) :
    fatByte geo vol' offset = fatByte geo vol offset :=
  same.content _ _ (Nat.mod_lt _ geo.sector_pos) (fatsector_inFat lt).not_copies

variable {cluster : ℕ}

theorem SameContent.fat (same : SameContent geo vol vol')
    (lt : cluster < geo.nclusters) : fat geo vol' cluster = fat geo vol cluster :=
  entry_congr lt fun _ ltOffset => same.fatByte (Nat.lt_of_lt_of_le ltOffset geo.fat_fits)

def Geometry.fatsize (geo : Geometry) : ℕ := geo.nfatsects * geo.hwsectorsize

/-- The volume after some work on its FAT, whose bytes are now those of a memory; the sector of one
byte is in the cache. -/
structure FatAt (geo : Geometry) (before vol : Volume) (mem : ℕ → Byte) (offset : ℕ) : Prop where
  coherent : Coherent geo vol
  cached : vol.currentsector = geo.fatbase + offset / geo.hwsectorsize
  bytes : ∀ offset < geo.fatsize, fatByte geo vol offset = mem offset
  other : ∀ sector i, i < geo.hwsectorsize → ¬ geo.InCopies sector → ¬ geo.InFat sector →
    content vol sector i = content before sector i
  nextfree : vol.fsinextfree = before.fsinextfree

theorem add_div_mod (within : a % n + k < n) : (a + k) / n = a / n ∧ (a + k) % n = a % n + k := by
  have split : a + k = n * (a / n) + (a % n + k) := by
    rw [← Nat.add_assoc, Nat.div_add_mod]
  rw [split, Nat.mul_add_div (by omega), Nat.mul_add_mod, Nat.div_eq_of_lt within,
    Nat.mod_eq_of_lt within]
  exact ⟨rfl, rfl⟩

theorem next_div_mod (positive : 0 < n) (last : a % n + k = n) :
    (a + k) / n = a / n + 1 ∧ (a + k) % n = 0 := by
  have split : a + k = n * (a / n + 1) := by
    have := Nat.div_add_mod a n
    rw [Nat.mul_add, Nat.mul_one]
    omega
  rw [split, Nat.mul_div_cancel_left _ positive, Nat.mul_mod_right]
  exact ⟨rfl, rfl⟩

section FatAt

variable {before : Volume} {mem : ℕ → Byte} {offset : ℕ}

theorem FatAt.buffer (at_ : FatAt geo before vol mem offset) (lt : offset < geo.fatsize) :
    vol.buffer (offset % geo.hwsectorsize) = mem offset := by
  rw [← at_.bytes offset lt, fatByte, content, if_pos at_.cached.symm]

theorem fatAt_add {k : ℕ} (within : offset % geo.hwsectorsize + k < geo.hwsectorsize) :
    FatAt geo before vol mem (offset + k) ↔ FatAt geo before vol mem offset := by
  have same := (add_div_mod within).1
  exact ⟨fun at_ => { at_ with cached := same ▸ at_.cached },
    fun at_ => { at_ with cached := same ▸ at_.cached }⟩

theorem fatAt_read (coherent : Coherent geo vol) (offset : ℕ) :
    FatAt geo vol (fscacheread geo vol (geo.fatbase + offset / geo.hwsectorsize))
      (fatByte geo vol) offset := by
  obtain ⟨cached, coherent, same⟩ := fscacheread_spec coherent
    (geo.fatbase + offset / geo.hwsectorsize)
  exact ⟨coherent, cached, fun _ lt => same.fatByte lt,
    fun sector i lt copies _ => same.content sector i lt copies, same.nextfree⟩

section

variable (at_ : FatAt geo before vol mem offset)
include at_

theorem FatAt.read (other : ℕ) :
    FatAt geo before (fscacheread geo vol (geo.fatbase + other / geo.hwsectorsize)) mem other := by
  have read := fatAt_read at_.coherent other
  exact ⟨read.coherent, read.cached, fun o lt => (read.bytes o lt).trans (at_.bytes o lt),
    fun sector i lt copies fat => (read.other sector i lt copies fat).trans
      (at_.other sector i lt copies fat), read.nextfree.trans at_.nextfree⟩

theorem FatAt.put (lt : offset < geo.fatsize) (value : Byte) :
    FatAt geo before (putByte vol (offset % geo.hwsectorsize) value) (setByte mem offset value)
      offset := by
  have inFat : geo.InFat vol.currentsector := at_.cached ▸ fatsector_inFat lt
  obtain ⟨coherent, put⟩ := putByte_spec inFat.not_copies (offset % geo.hwsectorsize) value
  refine ⟨coherent, at_.cached, fun o ltO => ?_, fun sector i ltI copies fat => ?_, at_.nextfree⟩
  · rw [fatByte, put, ← fatByte, at_.bytes o ltO, at_.cached]
    by_cases eq : o = offset
    · subst eq
      rw [if_pos ⟨rfl, rfl⟩, setByte_same]
    rw [setByte_other eq, if_neg]
    rintro ⟨sector, index⟩
    have div : o / geo.hwsectorsize = offset / geo.hwsectorsize := by omega
    exact eq (by rw [← Nat.div_add_mod o geo.hwsectorsize, div, index, Nat.div_add_mod])
  rw [put, if_neg, at_.other sector i ltI copies fat]
  rintro ⟨eq, -⟩
  exact fat (eq ▸ inFat)

theorem FatAt.nextByte :
    FatAt geo before (nextByte geo vol (geo.fatbase + offset / geo.hwsectorsize)
        (offset % geo.hwsectorsize)).1 mem (offset + 1) ∧
      (nextByte geo vol (geo.fatbase + offset / geo.hwsectorsize)
        (offset % geo.hwsectorsize)).2 = (offset + 1) % geo.hwsectorsize := by
  unfold Fat.nextByte
  split
  · next last =>
    have lt := Nat.mod_lt offset geo.sector_pos
    obtain ⟨div, mod⟩ := next_div_mod geo.sector_pos (Nat.le_antisymm lt last)
    rw [mod, Nat.add_assoc, ← div]
    exact ⟨at_.read (offset + 1), rfl⟩
  next within =>
  have within : offset % geo.hwsectorsize + 1 < geo.hwsectorsize := by omega
  exact ⟨(fatAt_add within).2 at_, (add_div_mod within).2.symm⟩

end

theorem FatAt.same (at_ : FatAt geo before vol (fatByte geo before) offset) :
    SameContent geo before vol := by
  refine ⟨fun sector i lt copies => ?_, at_.nextfree⟩
  by_cases fat : geo.InFat sector
  · obtain ⟨low, high⟩ := fat
    have index : (sector - geo.fatbase) * geo.hwsectorsize + i < geo.fatsize := by
      have : (sector - geo.fatbase + 1) * geo.hwsectorsize ≤ geo.fatsize :=
        Nat.mul_le_mul_right _ (by omega)
      rw [Nat.add_mul, Nat.one_mul] at this
      omega
    have byte := at_.bytes _ index
    have div : ((sector - geo.fatbase) * geo.hwsectorsize + i) / geo.hwsectorsize =
        sector - geo.fatbase := by
      rw [Nat.mul_comm, Nat.mul_add_div geo.sector_pos, Nat.div_eq_of_lt lt, Nat.add_zero]
    have mod : ((sector - geo.fatbase) * geo.hwsectorsize + i) % geo.hwsectorsize = i := by
      rw [Nat.mul_comm, Nat.mul_add_mod, Nat.mod_eq_of_lt lt]
    simp only [fatByte, div, mod, Nat.add_sub_cancel' low] at byte
    exact byte
  · exact at_.other sector i lt copies fat

end FatAt

/-! ## Entries through the cache -/

theorem entry_bytes_lt (lt : cluster < geo.nclusters) :
    geo.type.bytes (cluster + 1) ≤ geo.fatsize := by
  refine Nat.le_trans ?_ geo.fat_fits
  cases geo.type <;> simp only [FatType.bytes] <;> omega

theorem aligned_within {width : ℕ} (divides : width ∣ 32) (lt : k < width) :
    width * cluster % geo.hwsectorsize + k < geo.hwsectorsize := by
  obtain ⟨q, hq⟩ := Nat.dvd_trans divides geo.sector_dirs
  have := geo.sector_pos
  rw [hq] at this ⊢
  rw [Nat.mul_mod_mul_left]
  have positive : 0 < q := Nat.pos_of_ne_zero (by rintro rfl; simp at this)
  have := Nat.mod_lt cluster positive
  have : width * (cluster % q + 1) ≤ width * q := Nat.mul_le_mul_left _ this
  rw [Nat.mul_add, Nat.mul_one] at this
  omega

section Aligned

variable {before : Volume} {mem : ℕ → Byte} {width : ℕ}
  (at_ : FatAt geo before vol mem (width * cluster)) (divides : width ∣ 32) (lt : k < width)
  (fits : width * cluster + k < geo.fatsize)

include at_ divides lt fits

theorem FatAt.byte :
    vol.buffer (width * cluster % geo.hwsectorsize + k) = mem (width * cluster + k) := by
  have within : width * cluster % geo.hwsectorsize + k < _ := aligned_within divides lt
  rw [← (add_div_mod within).2]
  exact ((fatAt_add within).2 at_).buffer fits

theorem FatAt.putAt (b : Byte) :
    FatAt geo before (putByte vol (width * cluster % geo.hwsectorsize + k) b)
      (setByte mem (width * cluster + k) b) (width * cluster) := by
  have within : width * cluster % geo.hwsectorsize + k < _ := aligned_within divides lt
  rw [← (add_div_mod within).2]
  exact (fatAt_add within).1 (((fatAt_add within).2 at_).put fits b)

end Aligned

/-- The entry of a cluster is read, and all sectors hold the same as before. -/
structure GotCluster (geo : Geometry) (vol : Volume) (cluster : ℕ) (result : Volume × Option ℕ) :
    Prop where
  value : result.2 = some (fat geo vol cluster)
  coherent : Coherent geo result.1
  cached : geo.InFat result.1.currentsector
  same : SameContent geo vol result.1

theorem FatAt.got (at_ : FatAt geo vol vol' (fatByte geo vol) offset) (lt : offset < geo.fatsize)
    (entry : value = fat geo vol cluster) : GotCluster geo vol cluster (vol', some value) :=
  ⟨congrArg some entry, at_.coherent, by rw [at_.cached]; exact fatsector_inFat lt, at_.same⟩

theorem getcluster_spec (coherent : Coherent geo vol) (valid : geo.IsCluster cluster) :
    GotCluster geo vol cluster (getcluster geo vol cluster) := by
  have fits := entry_bytes_lt valid.2
  unfold getcluster
  rw [if_pos valid]
  split
  · next type =>
    simp only [type, FatType.bytes] at fits
    have first := fatAt_read coherent (cluster * 3 / 2)
    obtain ⟨second, index⟩ := first.nextByte
    have low := first.buffer (by omega)
    have high := second.buffer (by omega)
    dsimp only
    rw [index, low, high]
    refine second.got (by omega) ?_
    simp only [fat, type, entry]
  · next type =>
    simp only [type, FatType.bytes] at fits
    have first := fatAt_read coherent (2 * cluster)
    have low := first.buffer (by omega)
    have high := first.byte (by decide : 2 ∣ 32) Nat.one_lt_two (by omega)
    dsimp only
    rw [low, high]
    refine first.got (by omega) ?_
    simp only [fat, type, entry]
  next type =>
  simp only [type, FatType.bytes] at fits
  have first := fatAt_read coherent (4 * cluster)
  have low := first.buffer (by omega)
  have byte (k : ℕ) (lt : k < 4) := first.byte (by decide : 4 ∣ 32) lt (by omega)
  dsimp only
  rw [low, byte 1 (by omega), byte 2 (by omega), byte 3 (by omega)]
  refine first.got (by omega) ?_
  simp only [fat, type, entry]

theorem getcluster_eq (coherent : Coherent geo vol) (valid : geo.IsCluster cluster) :
    ∃ vol', getcluster geo vol cluster = (vol', some (fat geo vol cluster)) ∧
      GotCluster geo vol cluster (vol', some (fat geo vol cluster)) := by
  have got := getcluster_spec coherent valid
  have eq : getcluster geo vol cluster = (_, some (fat geo vol cluster)) := Prod.ext rfl got.value
  exact ⟨_, eq, eq ▸ got⟩

structure PutCluster (geo : Geometry) (vol : Volume) (cluster value : ℕ)
    (result : Volume × Bool) : Prop where
  ok : result.2 = true
  coherent : Coherent geo result.1
  cached : geo.InFat result.1.currentsector
  fat : ∀ other < geo.nclusters, fat geo result.1 other =
    if other = cluster then value % geo.type.range else fat geo vol other
  other : ∀ sector i, i < geo.hwsectorsize → ¬ geo.InCopies sector → ¬ geo.InFat sector →
    content result.1 sector i = content vol sector i
  nextfree : result.1.fsinextfree = vol.fsinextfree

theorem FatAt.putEntry {mem : ℕ → Byte} (at_ : FatAt geo vol vol' mem offset)
    (lt : offset < geo.fatsize) (put : mem = putEntry geo.type (fatByte geo vol) cluster value) :
    PutCluster geo vol cluster value (vol', true) := by
  refine ⟨rfl, at_.coherent, by rw [at_.cached]; exact fatsector_inFat lt, fun other ltOther => ?_,
    at_.other, at_.nextfree⟩
  have memory : Fat.fat geo vol' other = entry geo.type mem other :=
    entry_congr ltOther fun o ltO => at_.bytes o (Nat.lt_of_lt_of_le ltO geo.fat_fits)
  rw [memory, put]
  split
  · next eq => rw [eq, entry_putEntry_same]
  · next ne => exact entry_putEntry_other _ _ ne value

theorem putcluster_spec (coherent : Coherent geo vol)
    (allowed : cluster = 0 ∨ geo.IsCluster cluster) (lt : cluster < geo.nclusters) (value : ℕ) :
    PutCluster geo vol cluster value (putcluster geo vol cluster value) := by
  have fits := entry_bytes_lt lt
  unfold putcluster
  rw [if_pos allowed]
  split
  · next type =>
    simp only [type, FatType.bytes] at fits
    have first := fatAt_read coherent (cluster * 3 / 2)
    have low := first.buffer (by omega)
    dsimp only
    rw [low]
    have written := first.put (by omega) (BitVec.ofNat 8 (if cluster % 2 = 1 then
      (fatByte geo vol (cluster * 3 / 2)).toNat % 2 ^ 4 + value % 2 ^ 4 * 2 ^ 4 else value % 2 ^ 8))
    obtain ⟨second, index⟩ := written.nextByte
    have high := second.buffer (by omega)
    rw [index, high, setByte_other (by omega)]
    refine (second.put (by omega) _).putEntry (by omega) ?_
    simp only [type, Fat.putEntry]
  · next type =>
    simp only [type, FatType.bytes] at fits
    have first := (fatAt_read coherent (2 * cluster)).put (by omega) (BitVec.ofNat 8 value)
    have second := first.putAt (by decide : 2 ∣ 32) Nat.one_lt_two (by omega)
      (BitVec.ofNat 8 (value / 2 ^ 8))
    refine second.putEntry (by omega) ?_
    simp only [type, Fat.putEntry]
  next type =>
  simp only [type, FatType.bytes] at fits
  have divides : 4 ∣ 32 := by decide
  have read := fatAt_read coherent (4 * cluster)
  have top := read.byte divides (by omega : 3 < 4) (by omega)
  dsimp only
  rw [top]
  have byte0 := read.put (by omega) (BitVec.ofNat 8 value)
  have byte1 := byte0.putAt divides (by omega : 1 < 4) (by omega) (BitVec.ofNat 8 (value / 2 ^ 8))
  have byte2 := byte1.putAt divides (by omega : 2 < 4) (by omega) (BitVec.ofNat 8 (value / 2 ^ 16))
  have byte3 := byte2.putAt divides (by omega : 3 < 4) (by omega)
    (BitVec.ofNat 8 ((fatByte geo vol (4 * cluster + 3)).toNat / 2 ^ 4 * 2 ^ 4 +
      value / 2 ^ 24 % 2 ^ 4))
  refine byte3.putEntry (by omega) ?_
  simp only [type, Fat.putEntry]

/-! ## The count of free clusters -/

variable (geo)

theorem flushCopies_count (copies : ℕ) (vol : Volume) :
    (flushCopies geo copies vol).fsifreecount = vol.fsifreecount := by
  induction copies generalizing vol with
  | zero => rfl
  | succ copies ih => exact ih _

theorem fscacheread_count (vol : Volume) (sector : ℕ) :
    (fscacheread geo vol sector).fsifreecount = vol.fsifreecount := by
  unfold fscacheread fscacheflush
  split
  · rfl
  split
  · split
    · exact flushCopies_count ..
    · rfl
  · rfl

theorem nextByte_count (vol : Volume) (fatsector fatindex : ℕ) :
    (nextByte geo vol fatsector fatindex).1.fsifreecount = vol.fsifreecount := by
  unfold nextByte
  split
  · exact fscacheread_count ..
  · rfl

theorem getcluster_count (vol : Volume) (cluster : ℕ) :
    (getcluster geo vol cluster).1.fsifreecount = vol.fsifreecount := by
  unfold getcluster
  split
  · split <;> simp only [nextByte_count, fscacheread_count]
  · rfl

theorem putcluster_count (vol : Volume) (cluster value : ℕ) :
    (putcluster geo vol cluster value).1.fsifreecount = vol.fsifreecount := by
  unfold putcluster
  split
  · split <;> simp only [putByte, nextByte_count, fscacheread_count]
  · rfl

end NuttxRtos.Fat
