import NuttxRtos.Fat.Model

/-!
# An open file

`fat_read` and `fat_seek` with the one-sector cache of the file, the cached cluster and sector, and
the number of sectors left in the cluster. File positions and sizes (`off_t`) are integers in the
range of 32 bits; sector numbers are taken modulo `2 ^ 32`.
-/

namespace NuttxRtos.Fat

structure File where
  startcluster : ℕ
  currentcluster : ℕ
  currentsector : ℕ
  sectorsincluster : ℕ
  cachesector : ℕ
  buffer : ℕ → Byte
  /-- `FFBUFF_VALID` -/
  valid : Bool
  /-- `FFBUFF_DIRTY` -/
  dirty : Bool
  /-- `FFBUFF_MODIFIED` -/
  modified : Bool
  /-- `O_RDOK` -/
  rdok : Bool
  /-- `O_WROK` -/
  wrok : Bool
  size : ℤ
  pos : ℤ

structure Open where
  vol : Volume
  file : File

def toOff (x : ℤ) : ℤ := Int.bmod x (2 ^ 32)

/-! ## The cache of the file -/

def ffcacheflush (s : Open) : Open :=
  if s.file.cachesector ≠ 0 ∧ s.file.dirty ∧ s.file.valid then
    { vol := hwwrite s.vol s.file.cachesector s.file.buffer
      file := { s.file with dirty := false } }
  else s

def ffcacheread (s : Open) (sector : ℕ) : Open :=
  if s.file.cachesector ≠ sector ∨ s.file.valid = false then
    let s := ffcacheflush s
    { s with file :=
      { s.file with buffer := s.vol.disk sector, cachesector := sector, valid := true } }
  else s

def ffcacheinvalidate (s : Open) : Open :=
  if s.file.valid then
    let s := ffcacheflush s
    { s with file := { s.file with valid := false, cachesector := 0 } }
  else s

variable (geo : Geometry)

/-! ## The cached position -/

/-- `fat_currentsector`; `none` is `-ENOSPC`. -/
def currentsector (file : File) (position : ℤ) : Option File :=
  if position ≤ file.size then
    let sectoroffset := (position.tdiv geo.hwsectorsize % geo.fatsecperclus).toNat
    some { file with
      currentsector := (geo.cluster2sector file.currentcluster + sectoroffset) % 2 ^ 32
      sectorsincluster := geo.fatsecperclus - sectoroffset }
  else none

def enterCluster (file : File) (cluster : ℕ) : File :=
  { file with
    currentcluster := cluster
    currentsector := geo.cluster2sector cluster
    sectorsincluster := geo.fatsecperclus }

/-- At the end of a cluster, the next one is looked up. -/
def nextCluster (s : Open) : Open × Bool :=
  if s.file.sectorsincluster < 1 then
    match getcluster geo s.vol s.file.currentcluster with
    | (vol, none) => ({ s with vol := vol }, false)
    | (vol, some cluster) =>
      if geo.IsCluster cluster then ({ vol := vol, file := enterCluster geo s.file cluster }, true)
      else ({ s with vol := vol }, false)
  else (s, true)

def passSectors (file : File) (nsectors : ℕ) : File :=
  { file with
    sectorsincluster := file.sectorsincluster - nsectors
    currentsector := (file.currentsector + nsectors) % 2 ^ 32 }

def advance (s : Open) (nbytes : ℕ) : Open :=
  { s with file := { s.file with pos := toOff (s.file.pos + nbytes) } }

def sectorindex (position : ℤ) : ℕ := (position % geo.hwsectorsize).toNat

/-! ## Reading -/

def readDirect (s : Open) (nsectors : ℕ) : Open × List Byte :=
  let nsectors := min nsectors s.file.sectorsincluster
  let s := ffcacheinvalidate s
  let sector := s.file.currentsector
  let data := (List.range (nsectors * geo.hwsectorsize)).map fun i =>
    s.vol.disk (sector + i / geo.hwsectorsize) (i % geo.hwsectorsize)
  ({ s with file := passSectors s.file nsectors }, data)

def readIndirect (s : Open) (index buflen : ℕ) : Open × List Byte :=
  let s := ffcacheread s s.file.currentsector
  let bytes (n : ℕ) := (List.range n).map fun i => s.file.buffer (index + i)
  if buflen < geo.hwsectorsize - index then (s, bytes buflen)
  else ({ s with file := passSectors s.file 1 }, bytes (geo.hwsectorsize - index))

/-- One round of the loop of `fat_read`; `direct` says that `CONFIG_FAT_FORCE_INDIRECT` is not
set. -/
def readChunk (direct : Bool) (s : Open) (buflen : ℕ) : Open × Option (List Byte) :=
  match nextCluster geo s with
  | (s, false) => (s, none)
  | (s, true) =>
    let index := sectorindex geo s.file.pos
    let nsectors := buflen / geo.hwsectorsize
    let (s, data) :=
      if direct ∧ 0 < nsectors ∧ index = 0 then readDirect geo s nsectors
      else readIndirect geo s index buflen
    (advance s data.length, some data)

def readLoop (direct : Bool) : ℕ → Open → ℕ → List Byte → Open × Option (List Byte)
  | 0, s, _, read => (s, some read)
  | fuel + 1, s, buflen, read =>
    if buflen = 0 then (s, some read)
    else
      match readChunk geo direct s buflen with
      | (s, none) => (s, none)
      | (s, some data) => readLoop direct fuel s (buflen - data.length) (read ++ data)

/-- `fat_read`: the bytes that are read, or an error. Every round of the loop reads something. -/
def read (direct : Bool) (s : Open) (buflen : ℕ) : Open × Option (List Byte) :=
  if s.file.rdok then
    let bytesleft := ((s.file.size - s.file.pos) % 2 ^ 32).toNat
    let buflen := min buflen bytesleft
    if s.file.currentsector = 0 then
      match currentsector geo s.file s.file.pos with
      | none => (s, none)
      | some file => readLoop geo direct buflen { s with file := file } buflen []
    else readLoop geo direct buflen s buflen []
  else (s, none)

/-! ## Seeking -/

inductive Whence where
  | set
  | cur
  | fromEnd
  | other

/-- The offset mapped according to the `whence` option. -/
def seekPosition (file : File) (offset : ℤ) : Whence → Option ℤ
  | .set => some offset
  | .cur => some (toOff (offset + file.pos))
  | .fromEnd => some (toOff (offset + file.size))
  | .other => none

inductive SeekEnd where
  | found (s : Open) (position : ℕ)
  | failed (s : Open)

/-- The cluster after another one: the chain is extended only if the file can be written. -/
def seekLookup (wrok : Bool) (vol : Volume) (cluster : ℕ) : Volume × Option ℕ :=
  if wrok then extendchain geo vol cluster else getcluster geo vol cluster

/-- The loop of `fat_seek` over the clusters. The position left is compared as an unsigned
number. -/
def seekLoop : ℕ → Open → ℕ → ℕ → SeekEnd
  | 0, s, _, _ => .failed s
  | fuel + 1, s, cluster, position =>
    let s := { s with file := { s.file with currentcluster := cluster } }
    if position < geo.clustersize then .found s position
    else
      match seekLookup geo s.file.wrok s.vol cluster with
      | (vol, none) => .failed { s with vol := vol }
      | (vol, some cluster) =>
        if cluster = 0 then .found { s with vol := vol } geo.clustersize
        else if geo.nclusters ≤ cluster then .failed { s with vol := vol }
        else
          seekLoop fuel (advance { s with vol := vol } geo.clustersize) cluster
            (position - geo.clustersize)

/-- The current sector for the position; the result of `fat_currentsector` is ignored. -/
def placeSector (s : Open) : Open :=
  { s with file := (currentsector geo s.file s.file.pos).getD s.file }

def seekFound (s : Open) (position : ℕ) : Open :=
  let s := placeSector geo (advance s position)
  if position % geo.hwsectorsize ≠ 0 then ffcacheread s s.file.currentsector else s

/-- A file that is extended by seeking is modified. -/
def seekGrow (file : File) : File :=
  if file.wrok ∧ file.size < file.pos then { file with size := file.pos, modified := true }
  else file

def seekStart (s : Open) (position : ℤ) : Open × Option ℕ :=
  if s.file.startcluster = 0 ∧ 0 < position then
    match extendchain geo s.vol 0 with
    | (vol, none) => ({ s with vol := vol }, none)
    | (vol, some cluster) =>
      ({ vol := vol, file := { s.file with startcluster := cluster } }, some cluster)
  else (s, some s.file.startcluster)

def seekWalk (s : Open) (cluster : ℕ) (position : ℤ) : Open × Bool :=
  if cluster = 0 then ({ s with file := seekGrow s.file }, true)
  else
    let left := (position % 2 ^ 32).toNat
    match seekLoop geo (left / geo.clustersize + 1) s cluster left with
    | .failed s => (s, false)
    | .found s position =>
      let s := seekFound geo s position
      ({ s with file := seekGrow s.file }, true)

/-- `fat_seek` from the start of the file. -/
def seekClusters (s : Open) (position : ℤ) : Open × Bool :=
  match seekStart geo s position with
  | (s, none) => (s, false)
  | (s, some cluster) => seekWalk geo s cluster position

def rewind (s : Open) : Open :=
  { s with file := { s.file with pos := 0, sectorsincluster := geo.fatsecperclus } }

/-- `fat_seek` to a position; the second component says whether it succeeds. -/
def seekTo (s : Open) (position : ℤ) : Open × Bool :=
  if position.tdiv geo.hwsectorsize = s.file.pos.tdiv geo.hwsectorsize then
    ({ s with file := { s.file with pos := position } }, true)
  else
    let s := ffcacheflush s
    let position := if s.file.size < position ∧ s.file.wrok = false then s.file.size else position
    seekClusters geo (rewind geo s) position

def seek (s : Open) (offset : ℤ) (whence : Whence) : Open × Bool :=
  match seekPosition s.file offset whence with
  | none => (s, false)
  | some position => seekTo geo s position

end NuttxRtos.Fat
