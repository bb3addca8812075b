import NuttxRtos.Fat.File
import NuttxRtos.Fat.Truncate
import NuttxRtos.Lib.Word

/-!
# Seeking and the end of the file

`fat_read` is bounded by the size less the position as an unsigned number, so it stays in the file
as long as the position does. `fat_seek` does not always keep it there.
-/

namespace NuttxRtos.Fat

open CheckedInt List

variable {geo : Geometry} {direct : Bool} {s s' s₁ : Open} {pos pos' : ℤ}

theorem toOff_eq {x : ℤ} (low : 0 ≤ x) (high : x < 2 ^ 31) : toOff x = x :=
  Int.bmod_eq_of_le (by omega) (by omega)

/-! ## What reading leaves alone -/

/-- Nothing but the caches, the place in the chain and the position changes; if the file cannot be
written and its cache is clean, the sectors hold what they held. -/
structure Reading (geo : Geometry) (s s' : Open) (pos : ℤ) : Prop where
  startcluster : s'.file.startcluster = s.file.startcluster
  rdok : s'.file.rdok = s.file.rdok
  wrok : s'.file.wrok = s.file.wrok
  size : s'.file.size = s.file.size
  pos : s'.file.pos = pos
  quiet : s.file.wrok = false → s.file.dirty = false → Coherent geo s.vol →
    s'.file.dirty = false ∧ Coherent geo s'.vol ∧ SameContent geo s.vol s'.vol

theorem Reading.refl (geo : Geometry) (s : Open) : Reading geo s s s.file.pos :=
  ⟨rfl, rfl, rfl, rfl, rfl, fun _ clean coherent => ⟨clean, coherent, .refl _⟩⟩

theorem Reading.trans (h : Reading geo s s₁ pos) (g : Reading geo s₁ s' pos') :
    Reading geo s s' pos' := by
  refine ⟨g.startcluster.trans h.startcluster, g.rdok.trans h.rdok, g.wrok.trans h.wrok,
    g.size.trans h.size, g.pos, fun readOnly clean coherent => ?_⟩
  obtain ⟨clean₁, coherent₁, same₁⟩ := h.quiet readOnly clean coherent
  obtain ⟨clean', coherent', same'⟩ := g.quiet (h.wrok.trans readOnly) clean₁ coherent₁
  exact ⟨clean', coherent', same₁.trans same'⟩

variable {file : File} {position offset : ℤ} {buflen cluster : ℕ} {chain : List ℕ} {whence : Whence}

theorem ffcacheflush_reading (geo : Geometry) (s : Open) :
    Reading geo s (ffcacheflush s) s.file.pos := by
  unfold ffcacheflush
  split
  · next flush =>
    refine ⟨rfl, rfl, rfl, rfl, rfl, fun _ clean => ?_⟩
    exact absurd (clean.symm.trans flush.2.1) Bool.false_ne_true
  · exact .refl geo s

theorem ffcacheread_reading (geo : Geometry) (s : Open) (sector : ℕ) :
    Reading geo s (ffcacheread s sector) s.file.pos := by
  have flush := ffcacheflush_reading geo s
  unfold ffcacheread
  split
  · exact { flush with }
  · exact .refl geo s

theorem ffcacheinvalidate_reading (geo : Geometry) (s : Open) :
    Reading geo s (ffcacheinvalidate s) s.file.pos := by
  have flush := ffcacheflush_reading geo s
  unfold ffcacheinvalidate
  split
  · exact { flush with }
  · exact .refl geo s

theorem getcluster_quiet {vol : Volume} (coherent : Coherent geo vol) (cluster : ℕ) :
    Coherent geo (getcluster geo vol cluster).1 ∧
      SameContent geo vol (getcluster geo vol cluster).1 := by
  by_cases valid : geo.IsCluster cluster
  · have got := getcluster_spec coherent valid
    exact ⟨got.coherent, got.same⟩
  · rw [getcluster, if_neg valid]
    exact ⟨coherent, .refl vol⟩

theorem nextCluster_reading (geo : Geometry) (s : Open) :
    Reading geo s (nextCluster geo s).1 s.file.pos ∧
      ((nextCluster geo s).2 = true →
        1 ≤ (nextCluster geo s).1.file.sectorsincluster) := by
  have positive := geo.cluster_pos
  have quiet (coherent : Coherent geo s.vol) := getcluster_quiet coherent s.file.currentcluster
  unfold nextCluster
  split
  · generalize getcluster geo s.vol s.file.currentcluster = found at quiet ⊢
    obtain ⟨vol, cluster⟩ := found
    have looked : Reading geo s { s with vol := vol } s.file.pos :=
      ⟨rfl, rfl, rfl, rfl, rfl, fun _ clean coherent => ⟨clean, quiet coherent⟩⟩
    cases cluster with
    | none => exact ⟨looked, nofun⟩
    | some cluster =>
      dsimp only
      split
      · exact ⟨{ looked with }, fun _ => positive⟩
      · exact ⟨looked, nofun⟩
  · next left => exact ⟨.refl geo s, fun _ => Nat.not_lt.1 left⟩

theorem currentsector_reading (some : currentsector geo s.file position = some file) :
    Reading geo s { s with file := file } s.file.pos := by
  unfold currentsector at some
  split at some
  · cases some
    exact { Reading.refl geo s with }
  · cases some

theorem placeSector_reading (geo : Geometry) (s : Open) :
    Reading geo s (placeSector geo s) s.file.pos := by
  unfold placeSector
  cases place : currentsector geo s.file s.file.pos with
  | none => exact .refl geo s
  | some file => exact currentsector_reading place

theorem Reading.advance (h : Reading geo s s₁ pos) (nbytes : ℕ) :
    Reading geo s (Fat.advance s₁ nbytes) (toOff (pos + nbytes)) :=
  { h with pos := by rw [← h.pos]; rfl }

/-! ## Reading -/

structure Transfer (geo : Geometry) (s : Open) (buflen : ℕ) (result : Open × List Byte) :
    Prop where
  some : 1 ≤ result.2.length
  le : result.2.length ≤ buflen
  reading : Reading geo s result.1 s.file.pos

theorem readDirect_transfer (s : Open) (left : 1 ≤ s.file.sectorsincluster)
    (whole : 0 < buflen / geo.hwsectorsize) :
    Transfer geo s buflen (readDirect geo s (buflen / geo.hwsectorsize)) := by
  have positive := geo.sector_pos
  have count : (readDirect geo s (buflen / geo.hwsectorsize)).2.length =
      min (buflen / geo.hwsectorsize) s.file.sectorsincluster * geo.hwsectorsize := by
    simp only [readDirect, length_map, length_range]
  refine ⟨?_, ?_, ?_⟩
  · rw [count]
    exact Nat.mul_pos (by omega) positive
  · rw [count]
    calc min (buflen / geo.hwsectorsize) s.file.sectorsincluster * geo.hwsectorsize
        ≤ buflen / geo.hwsectorsize * geo.hwsectorsize :=
          Nat.mul_le_mul_right _ (Nat.min_le_left _ _)
      _ ≤ buflen := Nat.div_mul_le_self _ _
  · exact { ffcacheinvalidate_reading geo s with }

theorem readIndirect_transfer (s : Open) {index : ℕ} (lt : index < geo.hwsectorsize)
    (some : 0 < buflen) : Transfer geo s buflen (readIndirect geo s index buflen) := by
  have load := ffcacheread_reading geo s s.file.currentsector
  unfold readIndirect
  split
  · refine ⟨?_, ?_, load⟩ <;> simp only [length_map, length_range] <;> omega
  · refine ⟨?_, ?_, { load with }⟩ <;>
      simp only [length_map, length_range] <;> omega

theorem sectorindex_lt (geo : Geometry) (position : ℤ) :
    sectorindex geo position < geo.hwsectorsize := by
  have := geo.sector_pos
  have high := Int.emod_lt_of_pos position (by omega : (0 : ℤ) < geo.hwsectorsize)
  unfold sectorindex
  omega

/-- One round of the loop reads something and moves the position by as much, or fails. -/
inductive Round (geo : Geometry) (s : Open) (buflen : ℕ) (result : Open × Option (List Byte)) : Prop
  | failed (none : result.2 = none) (reading : Reading geo s result.1 s.file.pos)
  | read (data : List Byte) (value : result.2 = some data) (some : 1 ≤ data.length)
      (le : data.length ≤ buflen)
      (reading : Reading geo s result.1 (toOff (s.file.pos + data.length)))

theorem readChunk_round (geo : Geometry) (direct : Bool) (s : Open) (some : 0 < buflen) :
    Round geo s buflen (readChunk geo direct s buflen) := by
  obtain ⟨enter, left⟩ := nextCluster_reading geo s
  unfold readChunk
  generalize nextCluster geo s = next at *
  obtain ⟨s₁, _ | _⟩ := next
  · exact .failed rfl enter
  dsimp only at enter left ⊢
  have transfer : Transfer geo s₁ buflen
      (if direct ∧ 0 < buflen / geo.hwsectorsize ∧ sectorindex geo s₁.file.pos = 0 then
        readDirect geo s₁ (buflen / geo.hwsectorsize)
      else readIndirect geo s₁ (sectorindex geo s₁.file.pos) buflen) := by
    split
    · next whole => exact readDirect_transfer s₁ (left rfl) whole.2.1
    · exact readIndirect_transfer s₁ (sectorindex_lt geo _) some
  generalize (if direct ∧ 0 < buflen / geo.hwsectorsize ∧ sectorindex geo s₁.file.pos = 0 then
    readDirect geo s₁ (buflen / geo.hwsectorsize)
    else readIndirect geo s₁ (sectorindex geo s₁.file.pos) buflen) = result at transfer ⊢
  obtain ⟨s₂, data⟩ := result
  have moved := (enter.trans transfer.reading).advance data.length
  rw [enter.pos] at moved
  exact .read data rfl transfer.some transfer.le moved

def InFile (file : File) : Prop := 0 ≤ file.pos ∧ file.pos ≤ file.size ∧ file.size < 2 ^ 31

theorem Reading.inFile (h : Reading geo s s' s.file.pos) (inFile : InFile s.file) :
    InFile s'.file := by
  rw [InFile, h.pos, h.size]
  exact inFile

theorem readLoop_reading (geo : Geometry) (direct : Bool) (fuel : ℕ) (read : List Byte)
    {buflen : ℕ} (inFile : InFile s.file) (le : (buflen : ℤ) ≤ s.file.size - s.file.pos) :
    (∃ pos, Reading geo s (readLoop geo direct fuel s buflen read).1 pos) ∧
      InFile (readLoop geo direct fuel s buflen read).1.file ∧
      ∀ bytes ∈ (readLoop geo direct fuel s buflen read).2, bytes.length ≤
        read.length + buflen := by
  induction fuel generalizing s buflen read with
  | zero =>
    refine ⟨⟨_, .refl geo s⟩, inFile, fun bytes mem => ?_⟩
    cases mem
    exact Nat.le_add_right _ _
  | succ fuel ih =>
    rw [readLoop]
    split
    · refine ⟨⟨_, .refl geo s⟩, inFile, fun bytes mem => ?_⟩
      cases mem
      exact Nat.le_add_right _ _
    next more =>
    have round := readChunk_round geo direct s (Nat.pos_of_ne_zero more)
    generalize readChunk geo direct s buflen = result at round
    obtain ⟨low, high, small⟩ := inFile
    cases round with
    | failed none reading =>
      obtain ⟨s₁, value⟩ := result
      cases none
      exact ⟨⟨_, reading⟩, reading.inFile ⟨low, high, small⟩, fun _ mem => nomatch mem⟩
    | read data value some leData reading =>
      obtain ⟨s₁, value'⟩ := result
      cases value
      have pos : s₁.file.pos = s.file.pos + data.length := by
        rw [reading.pos, toOff_eq (by omega) (by omega)]
      have size : s₁.file.size = s.file.size := reading.size
      obtain ⟨⟨pos', rest⟩, inFile', count⟩ := @ih s₁ (read ++ data) (buflen - data.length)
        ⟨by omega, by omega, by omega⟩ (by omega)
      refine ⟨⟨pos', reading.trans rest⟩, inFile', fun bytes mem => ?_⟩
      have := count bytes mem
      rw [length_append] at this
      omega

theorem read_reading (geo : Geometry) (direct : Bool) (inFile : InFile s.file) (buflen : ℕ) :
    (∃ pos, Reading geo s (read geo direct s buflen).1 pos) ∧
      InFile (read geo direct s buflen).1.file ∧
      ∀ bytes ∈ (read geo direct s buflen).2, (bytes.length : ℤ) ≤ s.file.size - s.file.pos := by
  obtain ⟨low, high, small⟩ := id inFile
  unfold read
  split
  · dsimp only
    have le : ((min buflen ((s.file.size - s.file.pos) % 2 ^ 32).toNat : ℕ) : ℤ) ≤
        s.file.size - s.file.pos := by
      omega
    generalize min buflen ((s.file.size - s.file.pos) % 2 ^ 32).toNat = count at le
    have loop {s₁ : Open} (enter : Reading geo s s₁ s.file.pos) :
        (∃ pos, Reading geo s (readLoop geo direct count s₁ count []).1 pos) ∧
          InFile (readLoop geo direct count s₁ count []).1.file ∧
          ∀ bytes ∈ (readLoop geo direct count s₁ count []).2,
            (bytes.length : ℤ) ≤ s.file.size - s.file.pos := by
      obtain ⟨⟨pos, rest⟩, after, bound⟩ := readLoop_reading geo direct count []
        (enter.inFile inFile) (by rw [enter.pos, enter.size]; exact le)
      refine ⟨⟨pos, enter.trans rest⟩, after, fun bytes mem => ?_⟩
      have := bound bytes mem
      rw [length_nil] at this
      omega
    split
    · split
      · exact ⟨⟨_, .refl geo s⟩, inFile, fun _ mem => nomatch mem⟩
      · next place => exact loop (currentsector_reading place)
    · exact loop (.refl geo s)
  · exact ⟨⟨_, .refl geo s⟩, inFile, fun _ mem => nomatch mem⟩

/-! ## Seeking -/

variable (vol : Volume)

theorem getcluster_isSome (valid : geo.IsCluster cluster) :
    ∃ vol' value, getcluster geo vol cluster = (vol', some value) := by
  unfold getcluster
  rw [if_pos valid]
  split <;> exact ⟨_, _, rfl⟩

theorem findFree_isSome (fuel : ℕ) {startcluster newcluster : ℕ} (positive : 1 ≤ newcluster)
    (start : 1 ≤ startcluster ∧ startcluster < geo.nclusters ∨ startcluster = 1) :
    ∃ vol' new, findFree geo fuel vol startcluster newcluster = (vol', some new) ∧
      (new = 0 ∨ geo.IsCluster new) := by
  induction fuel generalizing vol newcluster with
  | zero => exact ⟨vol, 0, rfl, .inl rfl⟩
  | succ fuel ih =>
    rw [findFree]
    cases goes : nextCandidate geo startcluster newcluster with
    | none => exact ⟨vol, 0, rfl, .inl rfl⟩
    | some candidate =>
      obtain ⟨valid, -, -⟩ := nextCandidate_some positive start goes
      obtain ⟨vol₁, value, got⟩ := getcluster_isSome vol valid
      dsimp only
      rw [got]
      cases value with
      | zero => exact ⟨vol₁, candidate, rfl, .inr valid⟩
      | succ value =>
        show ∃ vol' new, (if candidate = startcluster then (vol₁, some 0)
          else findFree geo fuel vol₁ startcluster candidate) = (vol', some new) ∧ _
        split
        · exact ⟨vol₁, 0, rfl, .inl rfl⟩
        · exact ih vol₁ (Nat.le_of_lt valid.1)

theorem extendchain_isSome (valid : geo.IsCluster cluster) :
    ∃ vol' new, extendchain geo vol cluster = (vol', some new) ∧ (new = 0 ∨ geo.IsCluster new) := by
  obtain ⟨low, high⟩ := id valid
  obtain ⟨vol₁, value, got⟩ := getcluster_isSome vol valid
  rw [extendchain, if_neg (by omega), got]
  dsimp only
  split
  · exact ⟨vol₁, 0, rfl, .inl rfl⟩
  split
  · exact ⟨vol₁, value, rfl, .inr ⟨by omega, by omega⟩⟩
  obtain ⟨vol₂, new, found, result⟩ := findFree_isSome vol₁ geo.nclusters
    (by omega : 1 ≤ cluster) (.inl ⟨by omega, high⟩)
  rw [allocate, found]
  cases new with
  | zero => exact ⟨vol₂, 0, rfl, .inl rfl⟩
  | succ new => exact ⟨_, _, rfl, result⟩

/-- Where the loop of `fat_seek` ends, if the position asked for is not negative. A file that can be
written is left at its start if the loop fails. -/
inductive Sought (geo : Geometry) (s : Open) (cluster position : ℕ) : SeekEnd → Prop
  | found {s' : Open} {left : ℕ} (low : 0 ≤ s'.file.pos)
      (le : s'.file.pos + left ≤ s.file.pos + position) (reading : Reading geo s s' s'.file.pos) :
    Sought geo s cluster position (.found s' left)
  | failed {s' : Open} (low : 0 ≤ s'.file.pos) (le : s'.file.pos ≤ s.file.pos + position)
      (start : s.file.wrok = true → ¬ geo.IsCluster cluster ∧ s'.file.pos = s.file.pos)
      (reading : Reading geo s s' s'.file.pos) : Sought geo s cluster position (.failed s')

/-- What a file that can be written finds: another cluster after a cluster, or none. -/
theorem seekLookup_wrok {next : ℕ} (nonzero : cluster ≠ 0)
    (found : (seekLookup geo true vol cluster).2 = some next) :
    geo.IsCluster cluster ∧ (next = 0 ∨ geo.IsCluster next) := by
  rw [seekLookup, if_pos rfl] at found
  by_cases valid : geo.IsCluster cluster
  · obtain ⟨vol, new, result, new_eq⟩ := extendchain_isSome vol valid
    rw [result] at found
    cases found
    exact ⟨valid, new_eq⟩
  · rw [extendchain, if_neg nonzero, getcluster, if_neg valid] at found
    cases found

theorem seekLookup_none (none : (seekLookup geo true vol cluster).2 = none) :
    ¬ geo.IsCluster cluster := by
  intro valid
  obtain ⟨vol', new, result, -⟩ := extendchain_isSome vol valid
  rw [seekLookup, if_pos rfl, result] at none
  cases none

theorem seekLoop_sought {fuel cluster position : ℕ} (low : 0 ≤ s.file.pos)
    (small : s.file.pos + position < 2 ^ 31) (nonzero : cluster ≠ 0)
    (enough : position / geo.clustersize < fuel) :
    Sought geo s cluster position (seekLoop geo fuel s cluster position) := by
  induction fuel generalizing s cluster position with
  | zero => exact absurd enough (Nat.not_lt_zero _)
  | succ fuel ih =>
    have size := geo.clustersize_pos
    rw [seekLoop]
    split
    · exact .found low (Int.le_refl _) { Reading.refl geo s with }
    next far =>
    have quiet (readOnly : s.file.wrok = false) (coherent : Coherent geo s.vol) :
        Coherent geo (seekLookup geo s.file.wrok s.vol cluster).1 ∧
          SameContent geo s.vol (seekLookup geo s.file.wrok s.vol cluster).1 := by
      rw [seekLookup, readOnly]
      exact getcluster_quiet coherent cluster
    have writable (wrok : s.file.wrok = true) : seekLookup geo s.file.wrok s.vol cluster =
        seekLookup geo true s.vol cluster := by rw [wrok]
    generalize seekLookup geo s.file.wrok s.vol cluster = result at quiet writable ⊢
    obtain ⟨vol, next⟩ := result
    have entered : Reading geo s { vol := vol, file := { s.file with
        currentcluster := cluster } } s.file.pos :=
      ⟨rfl, rfl, rfl, rfl, rfl, fun readOnly clean coherent => ⟨clean, quiet readOnly coherent⟩⟩
    obtain _ | next := next
    · refine .failed low (by dsimp only; omega) (fun wrok => ⟨?_, rfl⟩) entered
      exact seekLookup_none s.vol (congrArg Prod.snd (writable wrok)).symm
    dsimp only
    have found (wrok : s.file.wrok = true) :=
      seekLookup_wrok s.vol nonzero (congrArg Prod.snd (writable wrok)).symm
    split
    · exact .found low (by dsimp only; omega) entered
    next nonzeroNext =>
    have valid (wrok : s.file.wrok = true) : geo.IsCluster next :=
      (found wrok).2.resolve_left nonzeroNext
    split
    · next high =>
      refine .failed low (by dsimp only; omega) (fun wrok => ?_) entered
      exact absurd (valid wrok).2 (Nat.not_lt.2 high)
    have pos : toOff (s.file.pos + geo.clustersize) = s.file.pos + geo.clustersize :=
      toOff_eq (by omega) (by omega)
    rw [Nat.div_eq_sub_div size (Nat.not_lt.1 far)] at enough
    have passed := entered.advance geo.clustersize
    have rest := @ih _ next (position - geo.clustersize)
      (by rw [passed.pos]; omega) (by rw [passed.pos]; omega) nonzeroNext
      (Nat.lt_of_succ_lt_succ enough)
    generalize seekLoop geo fuel _ next _ = result at rest ⊢
    cases rest with
    | found low le reading =>
      exact .found low (by rw [passed.pos] at le; omega) (passed.trans reading)
    | failed low le start reading =>
      exact .failed low (by rw [passed.pos] at le; omega)
        (fun wrok => absurd (valid wrok) (start wrok).1) (passed.trans reading)

theorem seekFound_reading (geo : Geometry) {position : ℕ} (low : 0 ≤ s.file.pos)
    (small : s.file.pos + position < 2 ^ 31) :
    Reading geo s (seekFound geo s position) (s.file.pos + position) := by
  have moved := (Reading.refl geo s).advance position
  rw [toOff_eq (by omega) small] at moved
  have placed := moved.trans (placeSector_reading geo (advance s position))
  rw [moved.pos] at placed
  unfold seekFound
  split
  · have load := placed.trans (ffcacheread_reading geo (placeSector geo (advance s position))
      (placeSector geo (advance s position)).file.currentsector)
    rw [placed.pos] at load
    exact load
  · exact placed

theorem seekGrow_inFile (low : 0 ≤ file.pos) (high : file.pos < 2 ^ 31) (size : file.size < 2 ^ 31)
    (readOnly : file.wrok = false → file.pos ≤ file.size) : InFile (seekGrow file) := by
  unfold seekGrow InFile
  split
  · exact ⟨low, Int.le_refl _, high⟩
  next notGrown =>
  refine ⟨low, ?_, size⟩
  cases wrok : file.wrok with
  | false => exact readOnly wrok
  | true =>
    have := not_and.1 notGrown wrok
    omega

structure Seeks (geo : Geometry) (s s' : Open) : Prop where
  rdok : s'.file.rdok = s.file.rdok
  wrok : s'.file.wrok = s.file.wrok
  inFile : InFile s'.file
  /-- A file that cannot be written stays as it is. -/
  readOnly : s.file.wrok = false → (s.file.startcluster = 0 → s.file.size = 0) →
    ∃ pos, Reading geo s s' pos

theorem seekStart_cases (geo : Geometry) (s : Open) (position : ℤ) :
    (∃ vol, s.file.startcluster = 0 ∧ 0 < position ∧
        seekStart geo s position = ({ s with vol := vol }, none)) ∨
      (∃ vol cluster, s.file.startcluster = 0 ∧ 0 < position ∧ seekStart geo s position =
        ({ vol := vol, file := { s.file with startcluster := cluster } }, some cluster)) ∨
      seekStart geo s position = (s, some s.file.startcluster) := by
  unfold seekStart
  split
  · next create =>
    generalize extendchain geo s.vol 0 = result
    obtain ⟨vol, _ | cluster⟩ := result
    · exact .inl ⟨vol, create.1, create.2, rfl⟩
    · exact .inr (.inl ⟨vol, cluster, create.1, create.2, rfl⟩)
  · exact .inr (.inr rfl)

theorem Reading.seeks {pos : ℤ} (reading : Reading geo s s' pos) (low : 0 ≤ pos)
    (high : pos < 2 ^ 31) (size : s.file.size < 2 ^ 31)
    (readOnly : s.file.wrok = false → pos ≤ s.file.size) :
    Seeks geo s { s' with file := seekGrow s'.file } := by
  have flags : (seekGrow s'.file).rdok = s'.file.rdok ∧ (seekGrow s'.file).wrok = s'.file.wrok := by
    unfold seekGrow
    split <;> exact ⟨rfl, rfl⟩
  refine ⟨flags.1.trans reading.rdok, flags.2.trans reading.wrok, ?_, fun notWritable _ => ?_⟩
  · apply seekGrow_inFile
    · rw [reading.pos]
      exact low
    · rw [reading.pos]
      exact high
    · rw [reading.size]
      exact size
    · rw [reading.wrok, reading.pos, reading.size]
      exact readOnly
  · rw [seekGrow, if_neg (by simp [reading.wrok, notWritable])]
    exact ⟨pos, reading⟩

section

variable {position : ℤ} (start : s.file.pos = 0)
  (size : 0 ≤ s.file.size ∧ s.file.size < 2 ^ 31) (low : 0 ≤ position) (high : position < 2 ^ 31)
  (readOnly : s.file.wrok = false → position ≤ s.file.size)
include start size low high readOnly

theorem seekWalk_seeks {cluster : ℕ} : Seeks geo s (seekWalk geo s cluster position).1 := by
  unfold seekWalk
  split
  · refine (Reading.refl geo s).seeks ?_ ?_ size.2 fun _ => ?_ <;> rw [start] <;> omega
  next nonzero =>
  dsimp only
  have left : ((position % 2 ^ 32).toNat : ℤ) = position := by
    omega
  generalize (position % 2 ^ 32).toNat = count at left ⊢
  have sought := @seekLoop_sought geo s (count / geo.clustersize + 1) cluster count
    (by omega) (by omega) nonzero (Nat.lt_succ_self _)
  generalize seekLoop geo _ s cluster count = result at sought
  cases sought with
  | @found s₁ rest low le reading =>
    have found := reading.trans (seekFound_reading geo low (by omega : s₁.file.pos + rest < _))
    exact found.seeks (by omega) (by omega) size.2 fun notWritable => by
      have := readOnly notWritable
      omega
  | @failed s₁ low le start' reading =>
    refine ⟨reading.rdok, reading.wrok, ⟨low, ?_, reading.size ▸ size.2⟩, fun _ _ => ⟨_, reading⟩⟩
    dsimp only
    rw [reading.size]
    cases wrok : s.file.wrok with
    | false =>
      have := readOnly wrok
      omega
    | true =>
      have := (start' wrok).2
      omega

theorem seekClusters_seeks : Seeks geo s (seekClusters geo s position).1 := by
  unfold seekClusters
  obtain ⟨vol, empty, beyond, eq⟩ | ⟨vol, cluster, empty, beyond, eq⟩ | eq :=
    seekStart_cases geo s position <;> rw [eq]
  · refine ⟨rfl, rfl, ⟨?_, ?_, size.2⟩, fun notWritable noSize => ?_⟩
    · exact Int.le_of_eq start.symm
    · exact Int.le_trans (Int.le_of_eq start) size.1
    · have := readOnly notWritable
      omega
  · have walk := @seekWalk_seeks geo
      { vol := vol, file := { s.file with startcluster := cluster } } position
      start size low high readOnly
    refine ⟨walk.rdok, walk.wrok, walk.inFile, fun notWritable noSize => ?_⟩
    have := readOnly notWritable
    omega
  · exact seekWalk_seeks start size low high readOnly

end

/-- `fat_seek` to a position that is not negative keeps the position in the file, but for the
shortcut for the sector of the old position. -/
theorem seekTo_seeks (inFile : InFile s.file) (low : 0 ≤ position) (high : position < 2 ^ 31)
    (ok : position ≤ s.file.size ∨
      position.tdiv geo.hwsectorsize ≠ s.file.pos.tdiv geo.hwsectorsize) :
    Seeks geo s (seekTo geo s position).1 := by
  unfold seekTo
  split
  · next shortcut =>
    have le := ok.resolve_right fun ne => ne shortcut
    exact ⟨rfl, rfl, ⟨low, le, inFile.2.2⟩, fun _ _ => ⟨position, rfl, rfl, rfl, rfl, rfl,
      fun _ clean coherent => ⟨clean, coherent, .refl _⟩⟩⟩
  have flush := ffcacheflush_reading geo s
  generalize ffcacheflush s = s₁ at flush ⊢
  obtain ⟨lowPos, lePos, small⟩ := inFile
  have size : s₁.file.size = s.file.size := flush.size
  have size' : (rewind geo s₁).file.size = s₁.file.size := rfl
  have seeks := @seekClusters_seeks geo (rewind geo s₁)
    (if s₁.file.size < position ∧ s₁.file.wrok = false then s₁.file.size else position) rfl
    ⟨by omega, by omega⟩ (by split <;> omega) (by split <;> omega)
    (fun readOnly => by
      split
      · exact Int.le_refl _
      · next notLimited =>
        exact Int.not_lt.1 fun lt => notLimited ⟨lt, readOnly⟩)
  refine ⟨seeks.rdok.trans flush.rdok, seeks.wrok.trans flush.wrok, seeks.inFile,
    fun readOnly noSize => ?_⟩
  obtain ⟨pos, reading⟩ := seeks.readOnly (flush.wrok.trans readOnly) fun empty => by
    rw [size', size]
    exact noSize (flush.startcluster.symm.trans empty)
  exact ⟨pos, flush.trans { reading with }⟩

/-! ## Negative positions -/

/-- A file that cannot be written: its cache is clean, and the chain begins with its start
cluster. -/
structure ReadOnly (geo : Geometry) (chain : List ℕ) (s : Open) : Prop where
  wrok : s.file.wrok = false
  clean : s.file.dirty = false
  coherent : Coherent geo s.vol
  linked : Linked geo (fat geo s.vol) chain
  start : s.file.startcluster = chain.headD 0
  empty : chain = [] → s.file.size = 0

theorem ReadOnly.reading (readOnly : ReadOnly geo chain s) (reading : Reading geo s s' pos) :
    ReadOnly geo chain s' := by
  obtain ⟨clean, coherent, same⟩ := reading.quiet readOnly.wrok readOnly.clean readOnly.coherent
  refine ⟨reading.wrok.trans readOnly.wrok, clean, coherent, ?_,
    reading.startcluster.trans readOnly.start, fun none => reading.size.trans (readOnly.empty none)⟩
  exact readOnly.linked.congr fun cluster mem =>
    same.fat (readOnly.linked.isCluster cluster mem).2

theorem ReadOnly.noSize (readOnly : ReadOnly geo chain s) (empty : s.file.startcluster = 0) :
    s.file.size = 0 := by
  refine readOnly.empty ?_
  cases chain with
  | nil => rfl
  | cons cluster rest =>
    have : cluster = 0 := readOnly.start.symm.trans empty
    have := readOnly.linked.1.1
    omega

theorem seekLoop_succ {position : ℕ} (fuel : ℕ) (wrok : s.file.wrok = false)
    (coherent : Coherent geo s.vol) (valid : geo.IsCluster cluster)
    (used : fat geo s.vol cluster ≠ 0) (far : geo.clustersize ≤ position) :
    ∃ s₁, Reading geo s s₁ s.file.pos ∧ seekLoop geo (fuel + 1) s cluster position =
        if geo.nclusters ≤ fat geo s.vol cluster then .failed s₁
        else seekLoop geo fuel (advance s₁ geo.clustersize) (fat geo s.vol cluster)
          (position - geo.clustersize) := by
  obtain ⟨vol, eq, got⟩ := getcluster_eq coherent valid
  have lookup : seekLookup geo s.file.wrok s.vol cluster = getcluster geo s.vol cluster := by
    rw [wrok]
    rfl
  rw [eq] at lookup
  refine ⟨{ vol := vol, file := { s.file with currentcluster := cluster } }, ⟨rfl, rfl, rfl, rfl,
    rfl, fun _ clean _ => ⟨clean, got.coherent, got.same⟩⟩, ?_⟩
  rw [seekLoop]
  rw [if_neg (Nat.not_lt.2 far), lookup]
  dsimp only
  rw [if_neg used]

theorem seekLoop_past {cluster : ℕ} {rest : List ℕ} {fuel position : ℕ}
    (enough : rest.length < fuel) (wrok : s.file.wrok = false) (clean : s.file.dirty = false)
    (coherent : Coherent geo s.vol) (linked : Linked geo (fat geo s.vol) (cluster :: rest))
    (far : (rest.length + 1) * geo.clustersize ≤ position) (low : 0 ≤ s.file.pos)
    (small : s.file.pos + (rest.length * geo.clustersize : ℕ) < 2 ^ 31) :
    ∃ s', seekLoop geo fuel s cluster position = .failed s' ∧
      Reading geo s s' (s.file.pos + (rest.length * geo.clustersize : ℕ)) := by
  induction rest generalizing s cluster fuel position with
  | nil =>
    obtain ⟨fuel, rfl⟩ := Nat.exists_eq_add_one_of_ne_zero (Nat.ne_of_gt enough)
    have used := linked.ne_zero cluster mem_cons_self
    obtain ⟨valid, link, -⟩ := linked
    have mark : geo.nclusters ≤ fat geo s.vol cluster := link
    obtain ⟨s₁, reading, eq⟩ := seekLoop_succ fuel wrok coherent valid used
      (by simpa using far : geo.clustersize ≤ position)
    rw [if_pos mark] at eq
    exact ⟨s₁, eq, by simpa using reading⟩
  | cons next rest ih =>
    obtain ⟨fuel, rfl⟩ := Nat.exists_eq_add_one_of_ne_zero (Nat.ne_of_gt
      (Nat.lt_of_le_of_lt (Nat.zero_le _) enough))
    have used := linked.ne_zero cluster mem_cons_self
    obtain ⟨valid, link, tail⟩ := linked
    have count : (rest.length + 1 + 1) * geo.clustersize =
        (rest.length + 1) * geo.clustersize + geo.clustersize := Nat.succ_mul _ _
    rw [length] at far small enough ⊢
    have far' : geo.clustersize ≤ position := by omega
    obtain ⟨s₁, reading, eq⟩ := seekLoop_succ fuel wrok coherent valid used far'
    rw [link, if_neg (Nat.not_le.2 tail.1.2)] at eq
    obtain ⟨clean₁, coherent₁, same⟩ := reading.quiet wrok clean coherent
    have passed := reading.advance geo.clustersize
    have split : (rest.length + 1) * geo.clustersize =
        rest.length * geo.clustersize + geo.clustersize := Nat.succ_mul _ _
    rw [toOff_eq (by omega) (by omega)] at passed
    obtain ⟨s', failed, rest_reading⟩ := @ih (advance s₁ geo.clustersize) next fuel
      (position - geo.clustersize) (Nat.lt_of_succ_lt_succ enough) (passed.wrok.trans wrok) clean₁
      coherent₁ (tail.congr fun other mem => same.fat (tail.isCluster other mem).2) (by omega)
      (by rw [passed.pos]; omega) (by rw [passed.pos]; omega)
    refine ⟨s', eq.trans failed, ?_⟩
    have whole := passed.trans rest_reading
    rw [passed.pos] at whole
    rw [split, Int.natCast_add, Int.add_comm (rest.length * geo.clustersize : ℕ), ← Int.add_assoc]
    exact whole

/-- A negative position is refused by a file that cannot be written, if it is at its last cluster
and the position lies in another sector. -/
theorem seekTo_negative (readOnly : ReadOnly geo chain s) (inFile : InFile s.file)
    (negative : position < 0) (nonempty : chain ≠ [])
    (sector : position.tdiv geo.hwsectorsize ≠ s.file.pos.tdiv geo.hwsectorsize)
    (far : (chain.length * geo.clustersize : ℕ) ≤ 2 ^ 32 + position)
    (last : s.file.pos = ((chain.length - 1) * geo.clustersize : ℕ)) :
    (seekTo geo s position).2 = false ∧ Reading geo s (seekTo geo s position).1 s.file.pos := by
  obtain ⟨cluster, rest, rfl⟩ := exists_cons_of_ne_nil nonempty
  obtain ⟨low, high, small⟩ := inFile
  obtain rfl : s.file.startcluster = cluster := readOnly.start
  have valid := readOnly.linked.1.1
  have unflushed : ffcacheflush s = s := by
    rw [ffcacheflush, if_neg]
    exact fun flush => Bool.false_ne_true (readOnly.clean.symm.trans flush.2.1)
  have left : position % 2 ^ 32 = 2 ^ 32 + position := by
    rw [← Int.add_emod_right, Int.emod_eq_of_lt (by omega) (by omega), Int.add_comm]
  rw [length] at far
  rw [length, Nat.add_sub_cancel] at last
  rw [seekTo, if_neg sector]
  dsimp only
  have nonzero : s.file.startcluster ≠ 0 := by omega
  have start : seekStart geo (rewind geo s) position =
      (rewind geo s, some s.file.startcluster) := by
    exact if_neg fun create => nonzero create.1
  rw [unflushed, if_neg (by omega), seekClusters, start]
  dsimp only
  rw [seekWalk, if_neg nonzero]
  dsimp only
  rw [left]
  have far' : (rest.length + 1) * geo.clustersize ≤ (2 ^ 32 + position).toNat := by omega
  have enough : rest.length < (2 ^ 32 + position).toNat / geo.clustersize + 1 := by
    have := (Nat.le_div_iff_mul_le geo.clustersize_pos).2 far'
    omega
  have small' : (rewind geo s).file.pos + (rest.length * geo.clustersize : ℕ) < 2 ^ 31 := by
    rw [show (rewind geo s).file.pos = 0 from rfl]
    omega
  obtain ⟨s', failed, reading⟩ := @seekLoop_past geo (rewind geo s) s.file.startcluster rest _ _
    enough readOnly.wrok readOnly.clean readOnly.coherent readOnly.linked far'
      (Int.le_refl _) small'
  rw [failed]
  refine ⟨rfl, reading.startcluster, reading.rdok, reading.wrok, reading.size, ?_, reading.quiet⟩
  rw [reading.pos, last]
  exact Int.zero_add _

/-! ## Runs -/

/-- The positions to seek to: not beyond the end in the sector of the old position, and negative
ones only at the last cluster of a file that cannot be written, and in another sector. -/
def Seekable (geo : Geometry) (chain : List ℕ) (s : Open) (position : ℤ) : Prop :=
  0 ≤ position ∧ (position ≤ s.file.size ∨
      position.tdiv geo.hwsectorsize ≠ s.file.pos.tdiv geo.hwsectorsize) ∨
    position < 0 ∧ s.file.wrok = false ∧ chain ≠ [] ∧
      position.tdiv geo.hwsectorsize ≠ s.file.pos.tdiv geo.hwsectorsize ∧
      (chain.length * geo.clustersize : ℕ) ≤ 2 ^ 32 + position ∧
      s.file.pos = ((chain.length - 1) * geo.clustersize : ℕ)

inductive SeekRun (geo : Geometry) (direct : Bool) (chain : List ℕ) : Open → Prop
  | start {s : Open} (inFile : InFile s.file)
      (readOnly : s.file.wrok = false → ReadOnly geo chain s) : SeekRun geo direct chain s
  | read {s s' : Open} {buflen : ℕ} (run : SeekRun geo direct chain s)
      (result : (Fat.read geo direct s buflen).1 = s') : SeekRun geo direct chain s'
  | seek {s s' : Open} {offset : ℤ} {whence : Whence} (run : SeekRun geo direct chain s)
      (range : InInt32 offset)
      (ok : ∀ position ∈ seekPosition s.file offset whence, Seekable geo chain s position)
      (result : (Fat.seek geo s offset whence).1 = s') : SeekRun geo direct chain s'

theorem toOff_range (x : ℤ) : InInt32 (toOff x) := by
  have low := @Int.le_bmod x (2 ^ 32) (by decide)
  have high := @Int.bmod_lt x (2 ^ 32) (by decide)
  unfold InInt32 toOff
  omega

theorem seekPosition_range (range : InInt32 offset)
    (some : seekPosition file offset whence = some position) : InInt32 position := by
  cases whence <;> cases some
  · exact range
  all_goals exact toOff_range _

theorem seek_result (some : seekPosition s.file offset whence = some position) :
    seek geo s offset whence = seekTo geo s position := by
  rw [seek, some]

theorem SeekRun.inv (run : SeekRun geo direct chain s) :
    InFile s.file ∧ (s.file.wrok = false → ReadOnly geo chain s) := by
  induction run with
  | start inFile readOnly => exact ⟨inFile, readOnly⟩
  | @read s s' buflen run result ih =>
    obtain ⟨⟨pos, reading⟩, inFile, -⟩ := read_reading geo direct ih.1 buflen
    rw [← result]
    exact ⟨inFile, fun wrok => (ih.2 (reading.wrok.symm.trans wrok)).reading reading⟩
  | @seek s s' offset whence run range ok result ih =>
    cases place : seekPosition s.file offset whence with
    | none =>
      rw [← result, Fat.seek, place]
      exact ih
    | some position =>
      rw [seek_result place] at result
      have high := (seekPosition_range range place).2
      rcases ok position place with ⟨low, within⟩ | ⟨negative, wrok, nonempty, sector, far, last⟩
      · have seeks := seekTo_seeks ih.1 low high within
        rw [← result]
        refine ⟨seeks.inFile, fun wrok => ?_⟩
        have readOnly := ih.2 (seeks.wrok.symm.trans wrok)
        obtain ⟨pos, reading⟩ := seeks.readOnly readOnly.wrok readOnly.noSize
        exact readOnly.reading reading
      have readOnly := ih.2 wrok
      obtain ⟨-, reading⟩ := seekTo_negative readOnly ih.1 negative nonempty sector far last
      rw [← result]
      exact ⟨reading.inFile ih.1, fun _ => readOnly.reading reading⟩

/-- A file of 600 bytes in both clusters of the volume, opened for reading; it has been read up to
the second cluster. -/
def atLastCluster : Open where
  vol := fullVolume
  file :=
    { startcluster := 2
      currentcluster := 3
      currentsector := 4
      sectorsincluster := 1
      cachesector := 0
      buffer := fun _ => 0
      valid := false
      dirty := false
      modified := false
      rdok := true
      wrok := false
      size := 600
      pos := 512 }

theorem atLastCluster_run : SeekRun twoClusters true [2, 3] atLastCluster := by
  refine .start ⟨by decide, by decide, by decide⟩ fun _ => ?_
  exact ⟨rfl, rfl, fullVolume_coherent, (fullVolume_wellFormed.linked _ mem_cons_self).2, rfl,
    nofun⟩

end NuttxRtos.Fat
