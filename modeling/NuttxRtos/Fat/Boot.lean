import NuttxRtos.Fat.Model

/-!
# The boot record

`fat_checkbootrecord` takes the geometry of the volume from the boot sector. The number of clusters
is stored where `fat_cluster2sector` and `fat_getcluster` expect the first number above all
clusters.
-/

namespace NuttxRtos.Fat

/-- What the block driver reports. -/
structure Device where
  hwsectorsize : ℕ
  hwnsectors : ℕ
  sectors_lt : hwnsectors < 2 ^ 32

/-- The fields of `struct fat_mountpt_s` that come from the boot record. -/
structure BootRecord where
  type : FatType
  rootentcnt : ℕ
  nfatsects : ℕ
  fattotsec : ℕ
  fatresvdseccount : ℕ
  fatnumfats : ℕ
  fatsecperclus : ℕ
  nclusters : ℕ
  fatbase : ℕ
  rootbase : ℕ
  database : ℕ
  fsinfo : ℕ

/-- Why there is no boot record: a division by zero, or `-EINVAL`. -/
inductive Refusal where
  | divides
  | invalid
  deriving DecidableEq

/-- `a / b` -/
def divide (a b : ℕ) : Except Refusal ℕ := if b = 0 then .error .divides else .ok (a / b)

/-- A check that returns `-EINVAL`. -/
def refuse (wrong : Bool) : Except Refusal Unit := if wrong then .error .invalid else .ok ()

/-- `fat_getuint32` -/
def getuint32 (buffer : ℕ → Byte) (index : ℕ) : ℕ :=
  getuint16 buffer (index + 2) * 2 ^ 16 + getuint16 buffer index

/-- A field of 16 bits, or of 32 bits at another place if that is 0. -/
def field16or32 (buffer : ℕ → Byte) (index16 index32 : ℕ) : ℕ :=
  if getuint16 buffer index16 ≠ 0 then getuint16 buffer index16 else getuint32 buffer index32

/-- The type by the number of clusters. -/
def fatType (nclusters : ℕ) (notfat32 : Bool) : Except Refusal FatType :=
  if nclusters ≤ 2 ^ 12 - 16 then .ok .fat12
  else if nclusters ≤ 2 ^ 16 - 16 then .ok .fat16
  else if notfat32 then .error .invalid
  else .ok .fat32

/-- The sectors of the fixed root directory, as a `uint16_t`. -/
def rootdirsectors (dev : Device) (rootentcnt : ℕ) : Except Refusal ℕ :=
  if rootentcnt ≠ 0 then
    (divide (32 * rootentcnt + dev.hwsectorsize - 1) dev.hwsectorsize).map (· % 2 ^ 16)
  else .ok 0

/-- The sectors behind the reserved ones, the FATs and the root directory. -/
def ndatasectors (fattotsec fatresvdseccount ntotalfatsects rootdirsectors : ℕ) : ℕ :=
  (fattotsec + 3 * 2 ^ 32 - fatresvdseccount - ntotalfatsects - rootdirsectors) % 2 ^ 32

/-- `fat_checkbootrecord` -/
def checkbootrecord (dev : Device) (fatbase : ℕ) (buffer : ℕ → Byte) :
    Except Refusal BootRecord := do
  refuse (getuint16 buffer 510 ≠ 0xaa55 ∨ getuint16 buffer 11 ≠ dev.hwsectorsize)
  let rootentcnt := getuint16 buffer 17
  let rootdirsectors ← rootdirsectors dev rootentcnt
  let nfatsects := field16or32 buffer 22 36
  refuse (nfatsects = 0 ∨ dev.hwnsectors ≤ nfatsects)
  let fattotsec := field16or32 buffer 19 32
  refuse (fattotsec = 0 ∨ dev.hwnsectors < fattotsec)
  let fatresvdseccount := getuint16 buffer 14
  refuse (dev.hwnsectors < fatresvdseccount)
  let fatnumfats := (buffer 16).toNat
  let ntotalfatsects := fatnumfats * nfatsects % 2 ^ 32
  let ndatasectors := ndatasectors fattotsec fatresvdseccount ntotalfatsects rootdirsectors
  refuse (dev.hwnsectors < ndatasectors)
  let fatsecperclus := (buffer 13).toNat
  let nclusters ← divide ndatasectors fatsecperclus
  let type ← fatType nclusters
    (rootentcnt ≠ 0 ∨ getuint16 buffer 22 ≠ 0 ∨ getuint16 buffer 19 ≠ 0)
  let fsinfo := if type = .fat32 then fatbase + getuint16 buffer 48 else 0
  let fatbase := fatbase + fatresvdseccount
  let rootbase := if type = .fat32 then getuint32 buffer 44 else fatbase + ntotalfatsects
  let direntries ← divide rootentcnt (dev.hwsectorsize / 2 ^ 5)
  let database := (fatbase + ntotalfatsects + direntries) % 2 ^ 32
  pure { type, rootentcnt, nfatsects, fattotsec, fatresvdseccount, fatnumfats, fatsecperclus,
         nclusters, fatbase, rootbase, database, fsinfo }

/-- `fat_cluster2sector`; `none` is `-EINVAL`. -/
def BootRecord.cluster2sector (fs : BootRecord) (cluster : ℕ) : Option ℕ :=
  let cluster := (cluster + 2 ^ 32 - 2) % 2 ^ 32
  if (fs.nclusters + 2 ^ 32 - 2) % 2 ^ 32 ≤ cluster then none
  else some ((cluster * fs.fatsecperclus + fs.database) % 2 ^ 32)

/-! ## What a mount relies on -/

/-- The sectors of the fixed root directory, the last one filled up. -/
def BootRecord.rootSectors (fs : BootRecord) (dev : Device) : ℕ :=
  (32 * fs.rootentcnt + dev.hwsectorsize - 1) / dev.hwsectorsize

def BootRecord.dataSectors (fs : BootRecord) (dev : Device) : ℕ :=
  ndatasectors fs.fattotsec fs.fatresvdseccount (fs.fatnumfats * fs.nfatsects % 2 ^ 32)
    (fs.rootSectors dev)

def BootRecord.wholeClusters (fs : BootRecord) (dev : Device) : ℕ :=
  fs.dataSectors dev / fs.fatsecperclus

def BootRecord.dataStart (fs : BootRecord) (dev : Device) : ℕ :=
  fs.fatbase + fs.fatnumfats * fs.nfatsects + fs.rootSectors dev

/-- The FAT has all entries, and the accepted cluster numbers are those of the whole clusters of the
data area, each with its own sectors there. -/
structure Usable (dev : Device) (fs : BootRecord) : Prop where
  power : ∃ n, fs.fatsecperclus = 2 ^ n
  room : fs.type.bytes fs.nclusters ≤ fs.nfatsects * dev.hwsectorsize
  accepted : ∀ cluster < 2 ^ 32,
    fs.cluster2sector cluster ≠ none ↔ 2 ≤ cluster ∧ cluster ≤ fs.wholeClusters dev + 1
  sectors : ∀ cluster < 2 ^ 32, ∀ sector ∈ fs.cluster2sector cluster,
    sector = fs.dataStart dev + (cluster - 2) * fs.fatsecperclus ∧
      sector + fs.fatsecperclus ≤ fs.dataStart dev + fs.dataSectors dev

/-- No division by zero, and a record that is not refused can be relied on. -/
def Validated (dev : Device) : Except Refusal BootRecord → Prop
  | .error .divides => False
  | .error .invalid => True
  | .ok fs => Usable dev fs

variable {dev : Device} {fs : BootRecord}

/-! ## When a boot sector is refused -/

section Fields

variable (dev : Device) (buffer : ℕ → Byte)

/-- The boot sector has no signature, or is for sectors of another size. -/
def Foreign : Prop := getuint16 buffer 510 ≠ 0xaa55 ∨ getuint16 buffer 11 ≠ dev.hwsectorsize

/-- The data sectors according to the boot sector. -/
def sectorsOfData : ℕ :=
  ndatasectors (field16or32 buffer 19 32) (getuint16 buffer 14)
    ((buffer 16).toNat * field16or32 buffer 22 36 % 2 ^ 32)
    (if getuint16 buffer 17 ≠ 0 then
      (32 * getuint16 buffer 17 + dev.hwsectorsize - 1) / dev.hwsectorsize % 2 ^ 16 else 0)

/-- There is no FAT or no volume, or one of its parts does not fit the device. -/
def Oversized : Prop :=
  (field16or32 buffer 22 36 = 0 ∨ dev.hwnsectors ≤ field16or32 buffer 22 36) ∨
    (field16or32 buffer 19 32 = 0 ∨ dev.hwnsectors < field16or32 buffer 19 32) ∨
    dev.hwnsectors < getuint16 buffer 14 ∨ dev.hwnsectors < sectorsOfData dev buffer

/-- There are more clusters than a FAT16 has, and a field is set that a FAT32 leaves 0. -/
def Overfull : Prop :=
  2 ^ 16 - 16 < sectorsOfData dev buffer / (buffer 13).toNat ∧
    (getuint16 buffer 17 ≠ 0 ∨ getuint16 buffer 22 ≠ 0 ∨ getuint16 buffer 19 ≠ 0)

/-- A check fails before anything is divided by zero. -/
def Refused : Prop :=
  Foreign dev buffer ∨ (getuint16 buffer 17 ≠ 0 → dev.hwsectorsize ≠ 0) ∧
    (Oversized dev buffer ∨ (buffer 13).toNat ≠ 0 ∧ Overfull dev buffer)

end Fields

section Invalid

variable {β : Type}

theorem refuse_invalid {wrong : Prop} [Decidable wrong] {f : Unit → Except Refusal β} :
    refuse wrong >>= f = .error .invalid ↔ wrong ∨ f () = .error .invalid := by
  by_cases h : wrong <;> simp [refuse, h, bind, Except.bind]

variable {f : ℕ → Except Refusal β}

theorem divide_invalid {a b : ℕ} :
    divide a b >>= f = .error .invalid ↔ b ≠ 0 ∧ f (a / b) = .error .invalid := by
  by_cases h : b = 0 <;> simp [divide, h, bind, Except.bind]

theorem rootdirsectors_invalid {n : ℕ} :
    rootdirsectors dev n >>= f = .error .invalid ↔ (n ≠ 0 → dev.hwsectorsize ≠ 0) ∧
      f (if n ≠ 0 then (32 * n + dev.hwsectorsize - 1) / dev.hwsectorsize % 2 ^ 16 else 0) =
        .error .invalid := by
  unfold rootdirsectors divide
  by_cases some : n = 0 <;> by_cases zero : dev.hwsectorsize = 0 <;>
    simp [some, zero, bind, Except.bind, Except.map]

theorem fatType_invalid {n : ℕ} {notfat32 : Prop} [Decidable notfat32]
    {f : FatType → Except Refusal β} (returns : ∀ type, f type ≠ .error .invalid) :
    fatType n notfat32 >>= f = .error .invalid ↔ 2 ^ 16 - 16 < n ∧ notfat32 := by
  unfold fatType
  split
  · simp [bind, Except.bind, returns]
    omega
  split
  · simp [bind, Except.bind, returns]
    omega
  · by_cases h : notfat32 <;> simp [h, bind, Except.bind, returns]
    omega

end Invalid

theorem checkbootrecord_invalid (dev : Device) (fatbase : ℕ) (buffer : ℕ → Byte) :
    checkbootrecord dev fatbase buffer = .error .invalid ↔ Refused dev buffer := by
  unfold checkbootrecord
  simp only [refuse_invalid, rootdirsectors_invalid, divide_invalid]
  rw [fatType_invalid fun type => ?_]
  · unfold Refused Foreign Oversized Overfull sectorsOfData
    simp only [or_assoc]
  · simp [divide_invalid, pure, Except.pure]

/-! ## The clusters of an accepted record -/

theorem divide_ok {a b q : ℕ} (ok : divide a b = .ok q) : b ≠ 0 ∧ q = a / b := by
  unfold divide at ok
  split at ok
  · nomatch ok
  next some => exact ⟨some, (Except.ok.inj ok).symm⟩

theorem rootdirsectors_ok {rootentcnt n : ℕ} (ok : rootdirsectors dev rootentcnt = .ok n)
    (lt : rootentcnt < 2 ^ 16) (large : 32 ≤ dev.hwsectorsize) :
    n = (32 * rootentcnt + dev.hwsectorsize - 1) / dev.hwsectorsize := by
  unfold rootdirsectors at ok
  split at ok
  · rw [divide, if_neg (by omega)] at ok
    have many := Nat.mul_le_mul_left dev.hwsectorsize (Nat.succ_le_of_lt lt)
    cases Except.ok.inj ok
    exact Nat.mod_eq_of_lt (Nat.div_lt_of_lt_mul (by omega))
  next none =>
  rw [Decidable.not_not.1 none, Nat.div_eq_of_lt (by omega)]
  exact (Except.ok.inj ok).symm

theorem bind_ok {α β : Type} {x : Except Refusal α} {f : α → Except Refusal β} {b : β}
    (ok : x >>= f = .ok b) : ∃ a, x = .ok a ∧ f a = .ok b := by
  cases x with
  | error => nomatch ok
  | ok a => exact ⟨a, rfl, ok⟩

theorem refuse_ok {wrong : Bool} {u : Unit} (ok : refuse wrong = .ok u) : wrong = false := by
  cases wrong with
  | false => rfl
  | true => nomatch ok

theorem getuint16_lt (buffer : ℕ → Byte) (index : ℕ) : getuint16 buffer index < 2 ^ 16 := by
  unfold getuint16
  omega

theorem checkbootrecord_nclusters {fatbase : ℕ} {buffer : ℕ → Byte}
    (ok : checkbootrecord dev fatbase buffer = .ok fs) :
    fs.nclusters = fs.wholeClusters dev ∧ fs.nclusters < 2 ^ 32 := by
  have small := dev.sectors_lt
  obtain ⟨-, -, ok⟩ := bind_ok ok
  obtain ⟨root, rootOk, ok⟩ := bind_ok ok
  obtain ⟨-, -, ok⟩ := bind_ok ok
  obtain ⟨-, -, ok⟩ := bind_ok ok
  obtain ⟨-, -, ok⟩ := bind_ok ok
  obtain ⟨_, large, ok⟩ := bind_ok ok
  obtain ⟨nclusters, divided, ok⟩ := bind_ok ok
  obtain ⟨type, -, ok⟩ := bind_ok ok
  obtain ⟨entries, dirs, ok⟩ := bind_ok ok
  have le := of_decide_eq_false (refuse_ok large)
  have wide := (divide_ok dirs).1
  cases Except.ok.inj ok
  rw [rootdirsectors_ok rootOk (getuint16_lt ..) (by omega)] at divided le
  obtain ⟨-, rfl⟩ := divide_ok divided
  exact ⟨rfl, Nat.lt_of_le_of_lt (Nat.div_le_self _ _) (by omega)⟩

/-- The accepted numbers: the last two clusters are missing, and with fewer than two clusters
nearly every number is accepted. -/
theorem cluster2sector_ne_none (small : fs.nclusters < 2 ^ 32) {cluster : ℕ}
    (lt : cluster < 2 ^ 32) :
    fs.cluster2sector cluster ≠ none ↔
      if 2 ≤ fs.nclusters then 2 ≤ cluster ∧ cluster < fs.nclusters
      else (cluster + 2 ^ 32 - 2) % 2 ^ 32 < fs.nclusters + 2 ^ 32 - 2 := by
  unfold BootRecord.cluster2sector
  dsimp only
  split <;> split <;> simp <;> omega

def floppy : Device := ⟨512, 2048, by decide⟩

/-- Its boot sector: one reserved sector, one FAT of one sector and 17 root directory entries, which
need two sectors, so that 2044 sectors are left for data. -/
def floppySector (secperclus : Byte) (i : ℕ) : Byte :=
  if i = 12 then 2 else if i = 13 then secperclus else if i = 14 ∨ i = 16 ∨ i = 22 then 1
  else if i = 17 then 17 else if i = 20 then 8 else if i = 510 then 0x55 else if i = 511 then 0xaa
  else 0

end NuttxRtos.Fat
