import Mathlib.Algebra.Order.Ring.Int

/-!
# A FAT volume

The FAT through the one-sector cache of the mount point (`fat_getcluster`, `fat_putcluster`), the
operations on cluster chains and the truncation of directory entries. All transfers of the block
device succeed. Masks with a power of two minus one are remainders.
-/

namespace NuttxRtos.Fat

abbrev Byte := BitVec 8

inductive FatType where
  | fat12
  | fat16
  | fat32
deriving DecidableEq

/-- The number of values of an entry. -/
def FatType.range : FatType → ℕ
  | .fat12 => 2 ^ 12
  | .fat16 => 2 ^ 16
  | .fat32 => 2 ^ 28

/-- The bytes that hold the entries of the first clusters. -/
def FatType.bytes (type : FatType) (nclusters : ℕ) : ℕ :=
  match type with
  | .fat12 => nclusters * 3 / 2 + 1
  | .fat16 => 2 * nclusters
  | .fat32 => 4 * nclusters

/-- What `fat_mount` finds out about the volume. -/
structure Geometry where
  type : FatType
  hwsectorsize : ℕ
  fatsecperclus : ℕ
  nclusters : ℕ
  fatbase : ℕ
  nfatsects : ℕ
  fatnumfats : ℕ
  database : ℕ
  /-- A sector holds whole directory entries, and a mask with its size minus one is a remainder. -/
  sector_pow : ∃ k, hwsectorsize = 2 ^ (k + 5)
  cluster_pow : ∃ k, fatsecperclus = 2 ^ k
  /-- Cluster numbers and the mark for the end of a chain are different entries. -/
  clusters_lt : nclusters < type.range
  fat_fits : type.bytes nclusters ≤ nfatsects * hwsectorsize
  fatbase_pos : 0 < fatbase
  fats_pos : 0 < fatnumfats
  fats_le : fatbase + fatnumfats * nfatsects ≤ database
  /-- Sector numbers are of type `off_t`. -/
  sectors_lt : database + nclusters * fatsecperclus < 2 ^ 31

namespace Geometry

variable (geo : Geometry)

theorem sector_pos : 0 < geo.hwsectorsize := by
  obtain ⟨k, size⟩ := geo.sector_pow
  rw [size]
  exact Nat.two_pow_pos _

theorem sector_dirs : 32 ∣ geo.hwsectorsize := by
  obtain ⟨k, size⟩ := geo.sector_pow
  rw [size]
  exact Nat.pow_dvd_pow 2 (Nat.le_add_left 5 k)

theorem cluster_pos : 0 < geo.fatsecperclus := by
  obtain ⟨k, size⟩ := geo.cluster_pow
  rw [size]
  exact Nat.two_pow_pos _

def clustersize : ℕ := geo.fatsecperclus * geo.hwsectorsize

/-- A cluster number that can be in a chain. -/
def IsCluster (cluster : ℕ) : Prop := 2 ≤ cluster ∧ cluster < geo.nclusters

instance (cluster : ℕ) : Decidable (geo.IsCluster cluster) := inferInstanceAs (Decidable (_ ∧ _))

/-- The sector lies in the first copy of the FAT. -/
def InFat (sector : ℕ) : Prop := geo.fatbase ≤ sector ∧ sector < geo.fatbase + geo.nfatsects

instance (sector : ℕ) : Decidable (geo.InFat sector) := inferInstanceAs (Decidable (_ ∧ _))

/-- `fat_cluster2sector`; `-EINVAL` as the block driver gets to see it. -/
def cluster2sector (cluster : ℕ) : ℕ :=
  if geo.IsCluster cluster then (cluster - 2) * geo.fatsecperclus + geo.database else 2 ^ 32 - 22

end Geometry

/-- The block device and `struct fat_mountpt_s`. -/
structure Volume where
  disk : ℕ → ℕ → Byte
  buffer : ℕ → Byte
  currentsector : ℕ
  dirty : Bool
  fsinextfree : ℕ
  fsifreecount : ℕ
  fsidirty : Bool

def setByte (buffer : ℕ → Byte) (index : ℕ) (value : Byte) : ℕ → Byte :=
  fun i => if i = index then value else buffer i

def hwwrite (vol : Volume) (sector : ℕ) (data : ℕ → Byte) : Volume :=
  { vol with disk := fun s => if s = sector then data else vol.disk s }

variable (geo : Geometry)

/-! ## The cache of the mount point -/

def flushCopies : ℕ → Volume → Volume
  | 0, vol => vol
  | copies + 1, vol =>
    let sector := vol.currentsector + geo.nfatsects
    flushCopies copies { hwwrite vol sector vol.buffer with currentsector := sector }

def fscacheflush (vol : Volume) : Volume :=
  if vol.dirty then
    let written := hwwrite vol vol.currentsector vol.buffer
    let vol := if geo.InFat vol.currentsector then flushCopies geo (geo.fatnumfats - 1) written
      else written
    { vol with dirty := false }
  else vol

def fscacheread (vol : Volume) (sector : ℕ) : Volume :=
  if vol.currentsector = sector then vol
  else
    let vol := fscacheflush geo vol
    { vol with buffer := vol.disk sector, currentsector := sector }

/-- One byte of the cached sector is replaced, and the sector is dirty. -/
def putByte (vol : Volume) (index : ℕ) (value : Byte) : Volume :=
  { vol with buffer := setByte vol.buffer index value, dirty := true }

/-! ## Entries of the FAT -/

/-- The sector after the first byte of a FAT12 entry, which may be the next one. -/
def nextByte (vol : Volume) (fatsector fatindex : ℕ) : Volume × ℕ :=
  if geo.hwsectorsize ≤ fatindex + 1 then (fscacheread geo vol (fatsector + 1), 0)
  else (vol, fatindex + 1)

/-- `fat_getcluster`; `none` is a negative result. -/
def getcluster (vol : Volume) (clusterno : ℕ) : Volume × Option ℕ :=
  if geo.IsCluster clusterno then
    match geo.type with
    | .fat12 =>
      let fatoffset := clusterno * 3 / 2
      let fatsector := geo.fatbase + fatoffset / geo.hwsectorsize
      let fatindex := fatoffset % geo.hwsectorsize
      let vol := fscacheread geo vol fatsector
      let low := (vol.buffer fatindex).toNat
      let (vol, fatindex) := nextByte geo vol fatsector fatindex
      let cluster := low + (vol.buffer fatindex).toNat * 2 ^ 8
      (vol, some (if clusterno % 2 = 1 then cluster / 2 ^ 4 else cluster % 2 ^ 12))
    | .fat16 =>
      let fatoffset := 2 * clusterno
      let fatindex := fatoffset % geo.hwsectorsize
      let vol := fscacheread geo vol (geo.fatbase + fatoffset / geo.hwsectorsize)
      (vol, some ((vol.buffer fatindex).toNat + (vol.buffer (fatindex + 1)).toNat * 2 ^ 8))
    | .fat32 =>
      let fatoffset := 4 * clusterno
      let fatindex := fatoffset % geo.hwsectorsize
      let vol := fscacheread geo vol (geo.fatbase + fatoffset / geo.hwsectorsize)
      let value := (vol.buffer fatindex).toNat + (vol.buffer (fatindex + 1)).toNat * 2 ^ 8 +
        (vol.buffer (fatindex + 2)).toNat * 2 ^ 16 + (vol.buffer (fatindex + 3)).toNat * 2 ^ 24
      (vol, some (value % 2 ^ 28))
  else (vol, none)

/-- `fat_putcluster`; the second component says whether it succeeds. -/
def putcluster (vol : Volume) (clusterno nextcluster : ℕ) : Volume × Bool :=
  if clusterno = 0 ∨ geo.IsCluster clusterno then
    match geo.type with
    | .fat12 =>
      let fatoffset := clusterno * 3 / 2
      let fatsector := geo.fatbase + fatoffset / geo.hwsectorsize
      let fatindex := fatoffset % geo.hwsectorsize
      let vol := fscacheread geo vol fatsector
      let low :=
        if clusterno % 2 = 1 then
          (vol.buffer fatindex).toNat % 2 ^ 4 + nextcluster % 2 ^ 4 * 2 ^ 4
        else nextcluster % 2 ^ 8
      let vol := putByte vol fatindex (BitVec.ofNat 8 low)
      let (vol, fatindex) := nextByte geo vol fatsector fatindex
      let high :=
        if clusterno % 2 = 1 then nextcluster / 2 ^ 4 % 2 ^ 8
        else (vol.buffer fatindex).toNat / 2 ^ 4 * 2 ^ 4 + nextcluster / 2 ^ 8 % 2 ^ 4
      (putByte vol fatindex (BitVec.ofNat 8 high), true)
    | .fat16 =>
      let fatoffset := 2 * clusterno
      let fatindex := fatoffset % geo.hwsectorsize
      let vol := fscacheread geo vol (geo.fatbase + fatoffset / geo.hwsectorsize)
      let vol := putByte vol fatindex (BitVec.ofNat 8 nextcluster)
      (putByte vol (fatindex + 1) (BitVec.ofNat 8 (nextcluster / 2 ^ 8)), true)
    | .fat32 =>
      let fatoffset := 4 * clusterno
      let fatindex := fatoffset % geo.hwsectorsize
      let vol := fscacheread geo vol (geo.fatbase + fatoffset / geo.hwsectorsize)
      -- the top four bits are kept
      let top := (vol.buffer (fatindex + 3)).toNat / 2 ^ 4 * 2 ^ 4
      let vol := putByte vol fatindex (BitVec.ofNat 8 nextcluster)
      let vol := putByte vol (fatindex + 1) (BitVec.ofNat 8 (nextcluster / 2 ^ 8))
      let vol := putByte vol (fatindex + 2) (BitVec.ofNat 8 (nextcluster / 2 ^ 16))
      (putByte vol (fatindex + 3) (BitVec.ofNat 8 (top + nextcluster / 2 ^ 24 % 2 ^ 4)), true)
  else (vol, false)

/-! ## Cluster chains -/

/-- One more free cluster, if their number is known. -/
def countFree (vol : Volume) : Volume :=
  if vol.fsifreecount = 2 ^ 32 - 1 then vol
  else { vol with fsifreecount := (vol.fsifreecount + 1) % 2 ^ 32, fsidirty := true }

/-- One free cluster less, if their number is known. -/
def countUsed (vol : Volume) : Volume :=
  if vol.fsifreecount = 2 ^ 32 - 1 then vol
  else { vol with fsifreecount := (vol.fsifreecount + 2 ^ 32 - 1) % 2 ^ 32, fsidirty := true }

def removeLoop : ℕ → Volume → ℕ → Volume × Bool
  | 0, vol, _ => (vol, true)
  | fuel + 1, vol, cluster =>
    if geo.IsCluster cluster then
      match getcluster geo vol cluster with
      | (vol, none) => (vol, false)
      | (vol, some nextcluster) =>
        removeLoop fuel (countFree (putcluster geo vol cluster 0).1) nextcluster
    else (vol, true)

def removechain (vol : Volume) (cluster : ℕ) : Volume × Bool :=
  removeLoop geo (geo.nclusters + 1) vol cluster

/-- The candidate after a cluster, from the end back to the first one; none if that is behind the
start. -/
def nextCandidate (startcluster newcluster : ℕ) : Option ℕ :=
  if geo.nclusters ≤ newcluster + 1 then
    if startcluster < 2 then none else some 2
  else some (newcluster + 1)

/-- The loop of `fat_extendchain` that looks for a free cluster; `some 0` says that there is
none. -/
def findFree : ℕ → Volume → ℕ → ℕ → Volume × Option ℕ
  | 0, vol, _, _ => (vol, some 0)
  | fuel + 1, vol, startcluster, newcluster =>
    match nextCandidate geo startcluster newcluster with
    | none => (vol, some 0)
    | some candidate =>
      match getcluster geo vol candidate with
      | (vol, none) => (vol, none)
      | (vol, some 0) => (vol, some candidate)
      | (vol, some _) =>
        if candidate = startcluster then (vol, some 0)
        else findFree fuel vol startcluster candidate

/-- The end of `fat_extendchain`: a free cluster is marked as the last one of a chain, and linked
to the cluster before it if there is one. -/
def linkCluster (vol : Volume) (cluster newcluster : ℕ) : Volume :=
  let vol := (putcluster geo vol newcluster 0x0fffffff).1
  let vol := if cluster ≠ 0 then (putcluster geo vol cluster newcluster).1 else vol
  countUsed { vol with fsinextfree := newcluster }

def allocate (vol : Volume) (cluster startcluster : ℕ) : Volume × Option ℕ :=
  match findFree geo geo.nclusters vol startcluster startcluster with
  | (vol, none) => (vol, none)
  | (vol, some 0) => (vol, some 0)
  | (vol, some newcluster) => (linkCluster geo vol cluster newcluster, some newcluster)

/-- `fat_extendchain`: the cluster after this one, a new one if it is the last, or the first of a
new chain for cluster 0. `none` is a negative result, 0 a full volume. -/
def extendchain (vol : Volume) (cluster : ℕ) : Volume × Option ℕ :=
  if cluster = 0 then
    let nextfree := vol.fsinextfree
    allocate geo vol 0 (if nextfree = 0 ∨ geo.nclusters ≤ nextfree then 1 else nextfree)
  else
    match getcluster geo vol cluster with
    | (vol, none) => (vol, none)
    | (vol, some startsector) =>
      if startsector < 2 then (vol, some 0)
      else if startsector < geo.nclusters then (vol, some startsector)
      else allocate geo vol cluster cluster

/-! ## Directory entries -/

/-- The caller goes on after a call that succeeds. -/
def onSuccess (result : Volume × Bool) (goOn : Volume → Volume × Bool) : Volume × Bool :=
  match result with
  | (vol, false) => (vol, false)
  | (vol, true) => goOn vol

@[simp] theorem onSuccess_true (vol : Volume) (goOn : Volume → Volume × Bool) :
    onSuccess (vol, true) goOn = goOn vol := rfl

/-- The caller goes on with the value of a call, if it is not negative. -/
def onValue (result : Volume × Option ℕ) (goOn : Volume → ℕ → Volume × Bool) : Volume × Bool :=
  match result with
  | (vol, none) => (vol, false)
  | (vol, some value) => goOn vol value

@[simp] theorem onValue_some (vol : Volume) (value : ℕ) (goOn : Volume → ℕ → Volume × Bool) :
    onValue (vol, some value) goOn = goOn vol value := rfl

/-- Two bytes, the low one first. -/
def getuint16 (buffer : ℕ → Byte) (index : ℕ) : ℕ :=
  (buffer index).toNat + (buffer (index + 1)).toNat * 2 ^ 8

def putuint16 (vol : Volume) (index value : ℕ) : Volume :=
  putByte (putByte vol index (BitVec.ofNat 8 value)) (index + 1) (BitVec.ofNat 8 (value / 2 ^ 8))

/-- The start cluster in a directory entry of the cached sector. -/
def dirStart (buffer : ℕ → Byte) (ndx : ℕ) : ℕ :=
  getuint16 buffer (ndx + 20) * 2 ^ 16 + getuint16 buffer (ndx + 26)

/-- The new file size, the archive attribute and the time in a directory entry of the cached
sector. -/
def dirUpdate (vol : Volume) (ndx filesize writetime : ℕ) : Volume :=
  let vol := putuint16 (putuint16 vol (ndx + 28) filesize) (ndx + 30) (filesize / 2 ^ 16)
  let vol := putByte vol (ndx + 11) 0x20
  putuint16 (putuint16 vol (ndx + 22) writetime) (ndx + 24) (writetime / 2 ^ 16)

/-- `fat_dirtruncate` of the directory entry at an index of the cached sector. -/
def dirtruncate (vol : Volume) (ndx writetime : ℕ) : Volume × Bool :=
  let startcluster := dirStart vol.buffer ndx
  let vol := dirUpdate (putuint16 (putuint16 vol (ndx + 20) 0) (ndx + 26) 0) ndx 0 writetime
  let savesector := vol.currentsector
  onSuccess (removechain geo vol startcluster) fun vol =>
    (fscacheread geo { vol with fsinextfree := (startcluster + 2 ^ 32 - 1) % 2 ^ 32 } savesector,
      true)

def shrinkLoop : ℕ → Volume → ℕ → ℕ → ℤ → Volume × Bool
  | 0, vol, _, _, _ => (vol, true)
  | fuel + 1, vol, lastcluster, cluster, remaining =>
    if geo.IsCluster cluster then
      if remaining ≤ geo.clustersize then
        -- the entry of the last cluster that is kept
        onSuccess (removechain geo (putcluster geo vol lastcluster 0).1 cluster) fun vol =>
          ({ vol with fsinextfree := cluster - 1 }, true)
      else
        onValue (getcluster geo vol cluster) fun vol next =>
          shrinkLoop fuel vol cluster next (remaining - geo.clustersize)
    else (vol, true)

/-- `fat_dirshrink` of the directory entry at an index of the cached sector. -/
def dirshrink (vol : Volume) (ndx : ℕ) (length : ℤ) (writetime : ℕ) : Volume × Bool :=
  let lastcluster := dirStart vol.buffer ndx
  let vol := dirUpdate vol ndx (length % 2 ^ 32).toNat writetime
  onValue (getcluster geo vol lastcluster) fun vol cluster =>
    shrinkLoop geo (geo.nclusters + 1) vol lastcluster cluster length

end NuttxRtos.Fat
