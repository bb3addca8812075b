import NuttxRtos.Fat.Truncate

/-!
# The count of free clusters

`fat_nfreeclusters` counts the free clusters: for FAT12 it asks for every entry, for the other types
it looks at the words of the FAT, from its first entry on and in every second sector only.
`fat_extendchain` and `fat_removechain` then keep the number.
-/

namespace NuttxRtos.Fat

open List

variable {geo : Geometry} {vol vol' : Volume} {next next' : ℕ → ℕ}

section Model

variable (geo)

/-- The loop for FAT12. -/
def countEntries : List ℕ → Volume → ℕ → Volume × ℕ
  | [], vol, nfree => (vol, nfree)
  | cluster :: rest, vol, nfree =>
    let (vol, value) := getcluster geo vol cluster
    countEntries rest vol (if value = some 0 then nfree + 1 else nfree)

/-- `FAT_GETFAT16` and `FAT_GETFAT32` -/
def getfat (type : FatType) (buffer : ℕ → Byte) (index : ℕ) : ℕ :=
  match type with
  | .fat32 => getuint16 buffer index + getuint16 buffer (index + 2) * 2 ^ 16
  | _ => getuint16 buffer index

/-- The bytes of such a word. -/
def FatType.width : FatType → ℕ
  | .fat32 => 4
  | _ => 2

/-- The loop for the other types; the sector number is incremented twice for each sector. -/
def countWords : ℕ → Volume → ℕ → ℕ → ℕ → Volume × ℕ
  | 0, vol, _, _, nfree => (vol, nfree)
  | cluster + 1, vol, fatsector, offset, nfree =>
    let (vol, fatsector, offset) :=
      if geo.hwsectorsize ≤ offset then (fscacheread geo vol fatsector, fatsector + 2, 0)
      else (vol, fatsector, offset)
    countWords cluster vol fatsector (offset + geo.type.width)
      (if getfat geo.type vol.buffer offset = 0 then nfree + 1 else nfree)

/-- The cached count is not valid. -/
def Uncounted (vol : Volume) : Prop := (geo.nclusters + 2 ^ 32 - 2) % 2 ^ 32 < vol.fsifreecount

instance (vol : Volume) : Decidable (Uncounted geo vol) := inferInstanceAs (Decidable (_ < _))

/-- The count by looking at the FAT. -/
def countClusters (vol : Volume) : Volume × ℕ :=
  match geo.type with
  | .fat12 => countEntries geo (List.range' 2 (geo.nclusters - 2)) vol 0
  | _ => countWords geo geo.nclusters vol geo.fatbase geo.hwsectorsize 0

/-- `fat_nfreeclusters` -/
def nfreeclusters (vol : Volume) : Volume × ℕ :=
  if Uncounted geo vol then
    let (vol, nfree) := countClusters geo vol
    ({ vol with fsifreecount := nfree, fsidirty := vol.fsidirty || geo.type = .fat32 }, nfree)
  else (vol, vol.fsifreecount)

/-- The clusters whose entry is 0. -/
def freeCount (next : ℕ → ℕ) : ℕ :=
  (List.range' 2 (geo.nclusters - 2)).countP fun cluster => next cluster = 0

/-- The number of clusters for which `fat_getcluster` returns 0. -/
def freeClusters (vol : Volume) : ℕ :=
  (List.range' 2 (geo.nclusters - 2)).countP fun cluster => (getcluster geo vol cluster).2 = some 0

/-- The word that the loop looks at for a cluster. -/
def wordAt (sectors : ℕ → ℕ → Byte) (cluster : ℕ) : ℕ :=
  let offset := geo.type.width * cluster
  getfat geo.type (sectors (geo.fatbase + 2 * (offset / geo.hwsectorsize)))
    (offset % geo.hwsectorsize)

/-- The word of a cluster in the FAT. -/
def fatWord (vol : Volume) (cluster : ℕ) : ℕ :=
  getfat geo.type (fatByte geo vol) (geo.type.width * cluster)

/-- Entries 0 and 1 are set, and no entry differs from 0 in the bits that `fat_getcluster` drops
only. -/
structure Reserved (vol : Volume) : Prop where
  media : fatWord geo vol 0 ≠ 0
  ending : fatWord geo vol 1 ≠ 0
  clear : ∀ cluster < geo.nclusters, fat geo vol cluster = 0 → fatWord geo vol cluster = 0

/-- The FAT is read entry by entry, or its entries are in one sector. -/
def OneSector : Prop := geo.type = .fat12 ∨ geo.type.width * geo.nclusters ≤ geo.hwsectorsize

/-- The argument is none or the first cluster of a chain. -/
def RemovesChain (vol : Volume) (cluster : ℕ) : Prop :=
  ∃ chain, Linked geo (fat geo vol) chain ∧ chain.Nodup ∧ Starts geo cluster chain.head?

/-- Calls of `fat_extendchain` and `fat_removechain`, the latter for chains. -/
inductive Calls (start : Volume) : Volume → Prop
  | none : Calls start start
  | extend {vol : Volume} (before : Calls start vol) (cluster : ℕ) :
      Calls start (extendchain geo vol cluster).1
  | remove {vol : Volume} (before : Calls start vol) (cluster : ℕ)
      (chain : RemovesChain geo vol cluster) : Calls start (removechain geo vol cluster).1

end Model

theorem findFree_count (geo : Geometry) (fuel : ℕ) (vol : Volume) (startcluster newcluster : ℕ) :
    (findFree geo fuel vol startcluster newcluster).1.fsifreecount = vol.fsifreecount := by
  induction fuel generalizing vol newcluster with
  | zero => rfl
  | succ fuel ih =>
    unfold findFree
    split
    · rfl
    next candidate _ =>
    have got := getcluster_count geo vol candidate
    generalize getcluster geo vol candidate = result at got ⊢
    obtain ⟨vol₁, value⟩ := result
    match value with
    | none | some 0 => exact got
    | some (_ + 1) =>
      change (if candidate = startcluster then (vol₁, some 0)
        else findFree geo fuel vol₁ startcluster candidate).1.fsifreecount = _
      split
      · exact got
      · exact (ih vol₁ candidate).trans got

/-! ## How the count changes with an entry -/

theorem freeCount_congr (same : ∀ cluster < geo.nclusters, next cluster = next' cluster) :
    freeCount geo next = freeCount geo next' := by
  refine countP_congr fun cluster member => ?_
  rw [same cluster (by have := mem_range'_1.1 member; omega)]

variable {cluster : ℕ}

theorem freeCount_setEntry (valid : geo.IsCluster cluster) (value : ℕ) :
    freeCount geo (setEntry next cluster value) + (if next cluster = 0 then 1 else 0) =
      freeCount geo next + if value = 0 then 1 else 0 := by
  have member : cluster ∈ List.range' 2 (geo.nclusters - 2) := by
    obtain ⟨low, high⟩ := valid
    exact mem_range'_1.2 ⟨low, by omega⟩
  have nodup : (List.range' 2 (geo.nclusters - 2)).Nodup := nodup_range'
  unfold freeCount
  generalize List.range' 2 (geo.nclusters - 2) = all at member nodup
  obtain ⟨l₁, l₂, rfl⟩ := append_of_mem member
  have apart : ∀ other ∈ l₁ ++ l₂, setEntry next cluster value other = next other :=
    fun other inside => if_neg (by rintro rfl; grind)
  have rest := countP_congr (p := fun c => setEntry next cluster value c = 0)
    (q := fun c => next c = 0) fun c inside => by rw [apart c inside]
  have here : setEntry next cluster value cluster = value := if_pos rfl
  simp only [perm_middle.countP_eq, countP_cons, rest, here, decide_eq_true_eq]
  omega

def Counted (geo : Geometry) (vol : Volume) : Prop := vol.fsifreecount = freeCount geo (fat geo vol)

theorem freeCount_le (geo : Geometry) (next : ℕ → ℕ) : freeCount geo next ≤ geo.nclusters - 2 :=
  Nat.le_trans countP_le_length (Nat.le_of_eq length_range')

theorem clusters_lt (geo : Geometry) : geo.nclusters < 2 ^ 28 := by
  have := geo.clusters_lt
  cases type : geo.type <;> rw [type] at this <;> simp only [FatType.range] at this <;> omega

/-! ## Calls that keep the count -/

theorem freeCount_freeAll {chain : List ℕ} (valid : ∀ c ∈ chain, geo.IsCluster c ∧ next c ≠ 0)
    (nodup : chain.Nodup) : freeCount geo (freeAll next chain) =
      freeCount geo next + chain.length := by
  induction chain with
  | nil => exact freeCount_congr fun c _ => by simp [freeAll]
  | cons cluster rest ih =>
    obtain ⟨here, others⟩ := forall_mem_cons.1 valid
    obtain ⟨apart, nodup⟩ := nodup_cons.1 nodup
    have one : freeCount geo (setEntry (freeAll next rest) cluster 0) + _ = _ :=
      freeCount_setEntry here.1 0
    have used : freeAll next rest cluster ≠ 0 := by
      rw [freeAll, if_neg apart]
      exact here.2
    have same : freeCount geo (freeAll next (cluster :: rest)) =
        freeCount geo (setEntry (freeAll next rest) cluster 0) := freeCount_congr fun c _ => by
      simp only [freeAll, setEntry, mem_cons]
      by_cases eq : c = cluster <;> simp [eq]
    rw [if_neg used, if_pos rfl, ih others nodup] at one
    rw [same, length_cons]
    omega

theorem removechain_counted (coherent : Coherent geo vol) (counted : Counted geo vol)
    (removes : RemovesChain geo vol cluster) :
    Coherent geo (removechain geo vol cluster).1 ∧ Counted geo (removechain geo vol cluster).1 := by
  obtain ⟨chain, linked, nodup, start⟩ := removes
  obtain ⟨-, step, count⟩ := removeLoop_spec (Nat.lt_succ_of_le (linked.length_le nodup)) coherent
    linked nodup start
  have free := freeCount_freeAll (fun c inside => ⟨linked.isCluster c inside,
    linked.ne_zero c inside⟩) nodup
  have few := freeCount_le geo (freeAll (fat geo vol) chain)
  have small := clusters_lt geo
  unfold Counted at counted
  refine ⟨step.coherent, (count (by omega)).trans ?_⟩
  rw [counted, ← free]
  exact (freeCount_congr step.fat).symm

theorem linkEntries_freeCount {new : ℕ} (valid : geo.IsCluster new) (free : next new = 0)
    (old : cluster = 0 ∨ geo.IsCluster cluster ∧ next cluster ≠ 0) :
    freeCount geo (linkEntries geo next cluster new) + 1 = freeCount geo next := by
  have end_mark := endMark geo
  have low := valid.1
  have high := valid.2
  have first : freeCount geo (setEntry next new (0x0fffffff % geo.type.range)) + _ = _ :=
    freeCount_setEntry valid _
  rw [if_pos free, if_neg (by omega)] at first
  unfold linkEntries
  dsimp only
  split
  · exact first
  next some =>
  obtain ⟨validOld, used⟩ := old.resolve_left some
  have second : freeCount geo (setEntry (setEntry next new (0x0fffffff % geo.type.range)) cluster
      new) + _ = _ := freeCount_setEntry validOld new
  have other : setEntry next new (0x0fffffff % geo.type.range) cluster ≠ 0 := by
    unfold setEntry
    split
    · omega
    · exact used
  rw [if_neg other, if_neg (by omega)] at second
  omega

def lessOne (count : ℕ) : ℕ := if count = 2 ^ 32 - 1 then count else (count + 2 ^ 32 - 1) % 2 ^ 32

theorem linkCluster_count (geo : Geometry) (vol : Volume) (cluster new : ℕ) :
    (linkCluster geo vol cluster new).fsifreecount = lessOne vol.fsifreecount := by
  have used : ∀ vol : Volume, (countUsed vol).fsifreecount =
    lessOne vol.fsifreecount := fun vol => by
    unfold countUsed lessOne
    split <;> rfl
  unfold linkCluster
  rw [used]
  split <;> simp only [putcluster_count]

structure CountAfter (vol : Volume) (result : Volume × Option ℕ) : Prop where
  full : result.2.getD 0 = 0 → result.1.fsifreecount = vol.fsifreecount
  new : result.2.getD 0 ≠ 0 → result.1.fsifreecount = lessOne vol.fsifreecount

theorem Allocation.counted {result : Volume × Option ℕ} (alloc : Allocation geo vol cluster result)
    (counted : Counted geo vol)
    (old : cluster = 0 ∨ geo.IsCluster cluster ∧ fat geo vol cluster ≠ 0)
    (count : CountAfter vol result) : Coherent geo result.1 ∧ Counted geo result.1 := by
  have few := freeCount_le geo (fat geo vol)
  have small := clusters_lt geo
  cases alloc with
  | full value none step =>
    have count := count.full (by rw [value]; rfl)
    exact ⟨step.coherent, count.trans (counted.trans (freeCount_congr step.fat).symm)⟩
  | new new value valid free step =>
    have one := linkEntries_freeCount valid free old
    have count := count.new (by rw [value]; exact Nat.ne_of_gt (Nat.zero_lt_of_lt valid.1))
    unfold Counted at counted ⊢
    rw [lessOne, if_neg (by omega)] at count
    rw [count, freeCount_congr step.fat]
    exact ⟨step.coherent, by omega⟩

theorem allocate_count (geo : Geometry) (vol : Volume) (cluster startcluster : ℕ) :
    CountAfter vol (allocate geo vol cluster startcluster) := by
  have found := findFree_count geo geo.nclusters vol startcluster startcluster
  unfold allocate
  generalize findFree geo geo.nclusters vol startcluster startcluster = result at found ⊢
  obtain ⟨vol₁, value⟩ := result
  match value with
  | none | some 0 => exact ⟨fun _ => found, fun some => absurd rfl some⟩
  | some (new + 1) =>
    exact ⟨fun none => absurd none (Nat.succ_ne_zero new),
      fun _ => (linkCluster_count ..).trans (congrArg lessOne found)⟩

theorem extendchain_counted (coherent : Coherent geo vol) (counted : Counted geo vol)
    (cluster : ℕ) :
    Coherent geo (extendchain geo vol cluster).1 ∧ Counted geo (extendchain geo vol cluster).1 := by
  by_cases zero : cluster = 0
  · subst zero
    refine (extendchain_zero coherent).counted counted (.inl rfl) ?_
    exact allocate_count ..
  by_cases valid : geo.IsCluster cluster
  · obtain ⟨vol₁, eq, got⟩ := getcluster_eq coherent valid
    have count := getcluster_count geo vol cluster
    have last := fun mark => (extendchain_last coherent valid mark).counted counted
    rw [extendchain, if_neg zero, eq] at last ⊢
    rw [eq] at count
    have same : Coherent geo vol₁ ∧ Counted geo vol₁ :=
      ⟨got.coherent, count.trans (counted.trans (freeCount_congr got.step.fat).symm)⟩
    dsimp only at count last ⊢
    split
    · exact same
    split
    · exact same
    next used mark =>
    rw [if_neg used, if_neg mark] at last
    refine last (Nat.not_lt.1 mark) (.inr ⟨valid, by omega⟩) ?_
    obtain ⟨full, new⟩ := allocate_count geo vol₁ cluster cluster
    rw [count] at full new
    exact ⟨full, new⟩
  · rw [extendchain, if_neg zero, getcluster, if_neg valid]
    exact ⟨coherent, counted⟩

/-! ## Counting -/

theorem countEntries_spec {clusters : List ℕ} (valid : ∀ c ∈ clusters, geo.IsCluster c)
    (coherent : Coherent geo vol) (nfree : ℕ) :
    FatStep geo vol (countEntries geo clusters vol nfree).1 (fat geo vol) ∧
      (countEntries geo clusters vol nfree).2 =
        nfree + clusters.countP fun c => fat geo vol c = 0 := by
  induction clusters generalizing vol nfree with
  | nil => exact ⟨.refl coherent, rfl⟩
  | cons cluster rest ih =>
    obtain ⟨here, others⟩ := forall_mem_cons.1 valid
    obtain ⟨vol₁, eq, got⟩ := getcluster_eq coherent here
    rw [countEntries, eq]
    obtain ⟨step, count⟩ := ih others got.coherent
      (if some (fat geo vol cluster) = some 0 then nfree + 1 else nfree)
    refine ⟨got.step.trans (step.congr got.step.fat), count.trans ?_⟩
    have same : (rest.countP fun c => fat geo vol₁ c = 0) =
      rest.countP fun c => fat geo vol c = 0 :=
      countP_congr fun c inside => by rw [got.step.fat c (others c inside).2]
    rw [same, countP_cons]
    simp only [Option.some.injEq, decide_eq_true_eq]
    split <;> omega

/-- What the sectors hold once the cache is flushed. -/
structure Reads (geo : Geometry) (sectors : ℕ → ℕ → Byte) (vol : Volume) : Prop where
  coherent : Coherent geo vol
  disk : ∀ sector i, i < geo.hwsectorsize → (fscacheflush geo vol).disk sector i = sectors sector i

variable {sectors : ℕ → ℕ → Byte}

theorem Reads.read (reads : Reads geo sectors vol) (sector : ℕ) :
    Reads geo sectors (fscacheread geo vol sector) ∧
      ∀ i < geo.hwsectorsize, (fscacheread geo vol sector).buffer i = sectors sector i := by
  obtain ⟨-, coherent, -⟩ := fscacheread_spec reads.coherent sector
  obtain ⟨flushed, -, -, content_eq⟩ := fscacheflush_spec reads.coherent.clean
  by_cases cached : vol.currentsector = sector
  · have same : fscacheread geo vol sector = vol := if_pos cached
    rw [same]
    refine ⟨reads, fun i lt => ?_⟩
    rw [← reads.disk sector i lt]
    cases dirty : vol.dirty with
    | true =>
      rw [content_eq sector i lt (cached ▸ reads.coherent.place dirty), content, if_pos cached.symm]
    | false =>
      have clean : fscacheflush geo vol = vol := if_neg (by simp [dirty])
      rw [clean, ← cached]
      exact (reads.coherent.clean dirty i lt).symm
  have read : fscacheread geo vol sector = { fscacheflush geo vol with
    buffer := (fscacheflush geo vol).disk sector, currentsector := sector } := if_neg cached
  have clean : fscacheflush geo (fscacheread geo vol sector) = fscacheread geo vol sector :=
    if_neg (by simp [read, flushed])
  refine ⟨⟨coherent, fun s i lt => ?_⟩, fun i lt => ?_⟩
  · rw [clean, read]
    exact reads.disk s i lt
  · rw [read]
    exact reads.disk sector i lt

theorem getfat_congr {type : FatType} {buffer buffer' : ℕ → Byte} {index index' : ℕ}
    (same : ∀ k < type.width, buffer (index + k) = buffer' (index' + k)) :
    getfat type buffer index = getfat type buffer' index' := by
  have first : buffer index = buffer' index' := same 0 (by cases type <;> decide)
  have second := same 1 (by cases type <;> decide)
  cases type with
  | fat32 =>
    simp only [getfat, getuint16, first, second, same 2 (by decide), Nat.add_assoc, Nat.reduceAdd,
      same 3 (by decide)]
  | fat12 | fat16 => simp only [getfat, getuint16, first, second]

/-- Before an entry is looked at, either its sector is still to be read or it is cached. -/
def Ready (geo : Geometry) (sectors : ℕ → ℕ → Byte) (vol : Volume)
    (p fatsector offset : ℕ) : Prop :=
  offset = geo.hwsectorsize ∧ p % geo.hwsectorsize = 0 ∧
      fatsector = geo.fatbase + 2 * (p / geo.hwsectorsize) ∨
    offset < geo.hwsectorsize ∧ offset = p % geo.hwsectorsize ∧
      fatsector = geo.fatbase + 2 * (p / geo.hwsectorsize) + 2 ∧
      ∀ i < geo.hwsectorsize, vol.buffer i = sectors (geo.fatbase + 2 * (p / geo.hwsectorsize)) i

theorem countWords_spec (left cluster : ℕ) {vol : Volume} {fatsector offset : ℕ}
    (reads : Reads geo sectors vol)
    (ready : Ready geo sectors vol (geo.type.width * cluster) fatsector offset) (nfree : ℕ) :
    Coherent geo (countWords geo left vol fatsector offset nfree).1 ∧
      SameContent geo vol (countWords geo left vol fatsector offset nfree).1 ∧
      (countWords geo left vol fatsector offset nfree).2 =
        nfree + (List.range' cluster left).countP fun c => wordAt geo sectors c = 0 := by
  induction left generalizing vol cluster fatsector offset nfree with
  | zero => exact ⟨reads.coherent, .refl vol, rfl⟩
  | succ left ih =>
    -- the sector of the entry is in the cache now
    have cached : ∃ vol₁, (if geo.hwsectorsize ≤ offset then
          (fscacheread geo vol fatsector, fatsector + 2, 0) else (vol, fatsector, offset)) =
        (vol₁, geo.fatbase + 2 * (geo.type.width * cluster / geo.hwsectorsize) + 2,
          geo.type.width * cluster % geo.hwsectorsize) ∧
        Reads geo sectors vol₁ ∧ SameContent geo vol vol₁ ∧ ∀ i < geo.hwsectorsize, vol₁.buffer i =
          sectors (geo.fatbase + 2 * (geo.type.width * cluster / geo.hwsectorsize)) i := by
      rcases ready with ⟨last, start, sector⟩ | ⟨lt, here, sector, buffer⟩
      · obtain ⟨reads', buffer⟩ := reads.read fatsector
        obtain ⟨-, -, same⟩ := fscacheread_spec reads.coherent fatsector
        rw [if_pos (Nat.le_of_eq last.symm), start, sector]
        exact ⟨_, rfl, sector ▸ reads', sector ▸ same, sector ▸ buffer⟩
      · rw [if_neg (Nat.not_le.2 lt), here, sector]
        exact ⟨vol, rfl, reads, .refl vol, buffer⟩
    obtain ⟨vol₁, eq, reads₁, same, buffer⟩ := cached
    have within : ∀ k < geo.type.width, geo.type.width * cluster % geo.hwsectorsize + k <
        geo.hwsectorsize := fun k lt => aligned_within (by cases geo.type <;> decide) lt
    have word : getfat geo.type vol₁.buffer (geo.type.width * cluster % geo.hwsectorsize) =
        wordAt geo sectors cluster := getfat_congr fun k lt => buffer _ (within k lt)
    have wide : 0 < geo.type.width := by cases geo.type <;> decide
    have fits := within (geo.type.width - 1) (by omega)
    have ready' : Ready geo sectors vol₁ (geo.type.width * (cluster + 1))
        (geo.fatbase + 2 * (geo.type.width * cluster / geo.hwsectorsize) + 2)
        (geo.type.width * cluster % geo.hwsectorsize + geo.type.width) := by
      rw [Nat.mul_add, Nat.mul_one]
      by_cases last : geo.type.width * cluster % geo.hwsectorsize + geo.type.width =
        geo.hwsectorsize
      · obtain ⟨div, mod⟩ := next_div_mod geo.sector_pos last
        rw [Ready, div, mod]
        exact .inl ⟨last, rfl, by omega⟩
      obtain ⟨div, mod⟩ := add_div_mod (a := geo.type.width * cluster) (k := geo.type.width)
        (n := geo.hwsectorsize) (by omega)
      rw [Ready, div, mod]
      exact .inr ⟨by omega, rfl, rfl, buffer⟩
    obtain ⟨coherent, same', count⟩ := ih (cluster + 1) reads₁ ready'
      (if wordAt geo sectors cluster = 0 then nfree + 1 else nfree)
    rw [countWords, eq]
    dsimp only
    rw [word]
    refine ⟨coherent, same.trans same', count.trans ?_⟩
    rw [range'_succ, countP_cons]
    simp only [decide_eq_true_eq]
    split <;> omega

theorem isCluster_of_mem (member : cluster ∈ List.range' 2 (geo.nclusters - 2)) :
    geo.IsCluster cluster := by
  have := mem_range'_1.1 member
  exact ⟨this.1, by omega⟩

theorem freeClusters_eq (coherent : Coherent geo vol) :
    freeClusters geo vol = freeCount geo (fat geo vol) := by
  refine countP_congr fun cluster member => ?_
  rw [(getcluster_spec coherent (isCluster_of_mem member)).value]
  simp

/-! ## The words of the FAT -/

theorem within_word (geo : Geometry) (cluster : ℕ) {k : ℕ} (lt : k < geo.type.width) :
    geo.type.width * cluster % geo.hwsectorsize + k < geo.hwsectorsize :=
  aligned_within (by cases geo.type <;> decide) lt

theorem fat_eq_word (other : geo.type ≠ .fat12) (vol : Volume) (cluster : ℕ) :
    fat geo vol cluster = fatWord geo vol cluster % geo.type.range := by
  unfold fat fatWord
  cases type : geo.type with
  | fat12 => exact absurd type other
  | fat16 | fat32 =>
    simp only [entry, getfat, getuint16, FatType.width, FatType.range, Nat.add_assoc, Nat.reduceAdd]
    omega

theorem FatType.bytes_eq {type : FatType} (other : type ≠ .fat12) (n : ℕ) :
    type.bytes n = type.width * n := by
  cases type with
  | fat12 => exact absurd rfl other
  | fat16 | fat32 => rfl

/-- In the first sector the loop looks at the right words. -/
theorem wordAt_eq (coherent : Coherent geo vol) (other : geo.type ≠ .fat12)
    (one : geo.type.width * geo.nclusters ≤ geo.hwsectorsize) (lt : cluster < geo.nclusters) :
    wordAt geo (fscacheflush geo vol).disk cluster = fatWord geo vol cluster := by
  obtain ⟨-, -, -, content_eq⟩ := fscacheflush_spec coherent.clean
  have wide : 0 < geo.type.width := by cases geo.type <;> decide
  have here : geo.type.width * cluster < geo.type.width * geo.nclusters :=
    Nat.mul_lt_mul_of_pos_left lt wide
  have fits := geo.fat_fits
  rw [FatType.bytes_eq other] at fits
  have inFat := fatsector_inFat (Nat.lt_of_lt_of_le here fits)
  rw [Nat.div_eq_of_lt (by omega)] at inFat
  refine getfat_congr fun k ltk => ?_
  have within := within_word geo cluster ltk
  obtain ⟨div, mod⟩ := add_div_mod within
  rw [fatByte, div, mod, Nat.div_eq_of_lt (by omega)]
  exact content_eq _ _ within inFat.not_copies

theorem countP_words (coherent : Coherent geo vol) (other : geo.type ≠ .fat12)
    (one : geo.type.width * geo.nclusters ≤ geo.hwsectorsize) (reserved : Reserved geo vol) :
    ((List.range' 0 geo.nclusters).countP fun c =>
      wordAt geo (fscacheflush geo vol).disk c = 0) = freeCount geo (fat geo vol) := by
  have word : ∀ c < geo.nclusters, wordAt geo (fscacheflush geo vol).disk c = 0 ↔
      c ≠ 0 ∧ c ≠ 1 ∧ fat geo vol c = 0 := by
    intro c lt
    rw [wordAt_eq coherent other one lt]
    refine ⟨fun zero => ⟨?_, ?_, ?_⟩, fun free => reserved.clear c lt free.2.2⟩
    · rintro rfl
      exact reserved.media zero
    · rintro rfl
      exact reserved.ending zero
    · rw [fat_eq_word other, zero, Nat.zero_mod]
  have same := countP_congr (l := List.range' 0 geo.nclusters)
    (p := fun c => wordAt geo (fscacheflush geo vol).disk c = 0)
    (q := fun c => c ≠ 0 ∧ c ≠ 1 ∧ fat geo vol c = 0) fun c member => by
      simpa only [decide_eq_true_eq] using word c (by have := mem_range'_1.1 member; omega)
  rw [same]
  unfold freeCount
  match geo.nclusters with
  | 0 | 1 => rfl
  | n + 2 =>
    rw [range'_succ, range'_succ, countP_cons_of_neg (by simp), countP_cons_of_neg (by simp)]
    refine countP_congr fun c member => ?_
    have := mem_range'_1.1 member
    simp
    omega

theorem countClusters_spec (coherent : Coherent geo vol) :
    Coherent geo (countClusters geo vol).1 ∧
      (∀ c < geo.nclusters, fat geo (countClusters geo vol).1 c = fat geo vol c) ∧
      (countClusters geo vol).2 = if geo.type = .fat12 then freeCount geo (fat geo vol) else
        (List.range' 0 geo.nclusters).countP fun c =>
          wordAt geo (fscacheflush geo vol).disk c = 0 := by
  have reads : Reads geo (fscacheflush geo vol).disk vol := ⟨coherent, fun _ _ _ => rfl⟩
  have start : Ready geo (fscacheflush geo vol).disk vol (geo.type.width * 0) geo.fatbase
      geo.hwsectorsize := .inl ⟨rfl, by simp, by simp⟩
  obtain ⟨after, same, count⟩ := countWords_spec geo.nclusters 0 reads start 0
  rw [countClusters]
  split
  · next type =>
    obtain ⟨step, count⟩ := countEntries_spec (fun c => isCluster_of_mem) coherent 0
    rw [if_pos type, count, Nat.zero_add]
    exact ⟨step.coherent, step.fat, rfl⟩
  next other =>
  rw [if_neg other, count, Nat.zero_add]
  exact ⟨after, fun c lt => same.fat lt, rfl⟩

theorem nfreeclusters_of_oneSector (one : OneSector geo) (coherent : Coherent geo vol)
    (unknown : Uncounted geo vol) (reserved : geo.type ≠ .fat12 → Reserved geo vol) :
    (nfreeclusters geo vol).2 = freeClusters geo vol ∧
      ∀ vol', Calls geo (nfreeclusters geo vol).1 vol' →
        vol'.fsifreecount = freeClusters geo vol' := by
  obtain ⟨after, same, count⟩ := countClusters_spec coherent
  have exact_ : (countClusters geo vol).2 = freeCount geo (fat geo vol) := by
    rw [count]
    split
    · rfl
    next other =>
    exact countP_words coherent other (one.resolve_left other) (reserved other)
  rw [nfreeclusters, if_pos unknown]
  refine ⟨exact_.trans (freeClusters_eq coherent).symm, fun vol' calls => ?_⟩
  have kept : Coherent geo vol' ∧ Counted geo vol' := by
    induction calls with
    | none =>
      have stored : FatStep geo _ { (countClusters geo vol).1 with
        fsifreecount := (countClusters geo vol).2
        fsidirty := (countClusters geo vol).1.fsidirty || geo.type = .fat32 } _ :=
          .counts after ..
      refine ⟨stored.coherent, exact_.trans ?_⟩
      exact (freeCount_congr fun c lt => (stored.fat c lt).trans (same c lt)).symm
    | extend _ cluster ih => exact extendchain_counted ih.1 ih.2 cluster
    | remove _ cluster chain ih => exact removechain_counted ih.1 ih.2 chain
  rw [freeClusters_eq kept.1]
  exact kept.2

/-! ## A sector that is not counted -/

/-- The second sector of the FAT is 0, and all other sectors are full of ones. -/
def secondFree (geo : Geometry) : Volume where
  disk sector _ := if sector = geo.fatbase + 1 then 0 else 0xff
  buffer _ := 0xff
  currentsector := 0
  dirty := false
  fsinextfree := 0
  fsifreecount := 2 ^ 32 - 1
  fsidirty := false

theorem secondFree_coherent (geo : Geometry) : Coherent geo (secondFree geo) :=
  ⟨fun _ _ _ => by simp [secondFree], nofun⟩

/-- The number of entries in a sector. -/
theorem entries_lt (many : ¬ OneSector geo) :
    ∃ q, geo.hwsectorsize = geo.type.width * q ∧ 2 ≤ q ∧ q < geo.nclusters := by
  obtain ⟨-, long⟩ := not_or.1 many
  have large : 32 ≤ geo.hwsectorsize := Nat.le_of_dvd geo.sector_pos geo.sector_dirs
  obtain ⟨q, whole⟩ : geo.type.width ∣ geo.hwsectorsize :=
    Nat.dvd_trans (by cases geo.type <;> decide) geo.sector_dirs
  rw [whole] at long large
  refine ⟨q, whole, ?_, Nat.lt_of_mul_lt_mul_left (Nat.not_le.1 long)⟩
  cases type : geo.type <;> rw [type] at large <;> simp only [FatType.width] at large <;> omega

theorem secondFree_uncounted (many : ¬ OneSector geo) : Uncounted geo (secondFree geo) := by
  obtain ⟨q, -, first, behind⟩ := entries_lt many
  have := clusters_lt geo
  simp only [Uncounted, secondFree]
  omega

theorem fatWord_secondFree (geo : Geometry) (cluster : ℕ) : fatWord geo (secondFree geo) cluster =
    getfat geo.type
      (fun _ => if geo.type.width * cluster / geo.hwsectorsize = 1 then 0 else 0xff) 0 := by
  refine getfat_congr fun k lt => ?_
  obtain ⟨div, -⟩ := add_div_mod (within_word geo cluster lt)
  rw [fatByte, div]
  refine (if_neg (Nat.ne_of_gt (Nat.add_pos_left geo.fatbase_pos _))).trans ?_
  exact if_congr Nat.add_left_cancel_iff rfl rfl

theorem getfat_zero (type : FatType) : getfat type (fun _ => 0) 0 = 0 := by cases type <;> rfl

theorem getfat_ones (type : FatType) : getfat type (fun _ => 0xff) 0 % type.range ≠ 0 := by
  cases type <;> decide

theorem secondFree_reserved (other : geo.type ≠ .fat12) : Reserved geo (secondFree geo) := by
  have set : ∀ c, geo.type.width * c / geo.hwsectorsize ≠ 1 →
    fatWord geo (secondFree geo) c ≠ 0 := by
    intro c ne
    rw [fatWord_secondFree, if_neg ne]
    exact fun zero => getfat_ones geo.type (by rw [zero, Nat.zero_mod])
  have large : 32 ≤ geo.hwsectorsize := Nat.le_of_dvd geo.sector_pos geo.sector_dirs
  refine ⟨set 0 (by simp), set 1 ?_, fun c lt zero => ?_⟩
  · rw [Nat.div_eq_of_lt (by cases geo.type <;> simp only [FatType.width] <;> omega)]
    exact Nat.zero_ne_one
  · rw [fat_eq_word other, fatWord_secondFree] at zero
    rw [fatWord_secondFree]
    split at zero
    · next here => rw [if_pos here, getfat_zero]
    · exact absurd zero (getfat_ones _)

/-- None of the free clusters is counted. -/
theorem nfreeclusters_secondFree (many : ¬ OneSector geo) :
    (nfreeclusters geo (secondFree geo)).2 = 0 ∧ 0 < freeClusters geo (secondFree geo) := by
  obtain ⟨other, -⟩ := not_or.1 many
  have coherent := secondFree_coherent geo
  have clean : fscacheflush geo (secondFree geo) = secondFree geo := if_neg Bool.false_ne_true
  obtain ⟨q, whole, first, behind⟩ := entries_lt many
  refine ⟨?_, ?_⟩
  · rw [nfreeclusters, if_pos (secondFree_uncounted many), (countClusters_spec coherent).2.2,
      if_neg other, clean]
    refine countP_eq_zero.2 fun c _ zero => getfat_ones geo.type ?_
    have word : wordAt geo (secondFree geo).disk c = getfat geo.type (fun _ => 0xff) 0 :=
      getfat_congr fun k _ => if_neg (by omega)
    rw [← word, of_decide_eq_true zero, Nat.zero_mod]
  · rw [freeClusters_eq coherent]
    refine countP_pos_iff.2 ⟨q, mem_range'_1.2 ⟨first, by omega⟩, decide_eq_true ?_⟩
    rw [fat_eq_word other, fatWord_secondFree, ← whole, Nat.div_self geo.sector_pos, if_pos rfl,
      getfat_zero, Nat.zero_mod]

/-- The count is right for every content of the FAT, and then kept, exactly if the FAT is a FAT12 or
has one sector. -/
theorem nfreeclusters_exact (geo : Geometry) :
    (∀ vol, Coherent geo vol → Uncounted geo vol → (geo.type ≠ .fat12 → Reserved geo vol) →
        (nfreeclusters geo vol).2 = freeClusters geo vol ∧
          ∀ vol', Calls geo (nfreeclusters geo vol).1 vol' →
            vol'.fsifreecount = freeClusters geo vol') ↔ OneSector geo := by
  refine ⟨fun right => ?_, fun one vol => nfreeclusters_of_oneSector one⟩
  by_contra many
  obtain ⟨none, some⟩ := nfreeclusters_secondFree many
  have exact_ := (right _ (secondFree_coherent geo) (secondFree_uncounted many)
    secondFree_reserved).1
  rw [none] at exact_
  exact absurd exact_ (Nat.ne_of_lt some)

/-- A FAT16 with 4096 clusters, whose entries take 16 sectors. -/
def fat16 : Geometry :=
  { twoClusters with
    type := .fat16
    nclusters := 4096
    nfatsects := 16
    database := 18
    clusters_lt := by decide
    fat_fits := by decide
    fats_le := by decide
    sectors_lt := by decide }

/-- The second sector of the FAT is not looked at: clusters are free, and none is counted. -/
theorem sector_not_counted :
    (Coherent fat16 (secondFree fat16) ∧ Uncounted fat16 (secondFree fat16) ∧
      Reserved fat16 (secondFree fat16)) ∧
      (nfreeclusters fat16 (secondFree fat16)).2 = 0 ∧ 0 < freeClusters fat16 (secondFree fat16) :=
  have many : ¬ OneSector fat16 := by unfold OneSector; decide
  ⟨⟨secondFree_coherent _, secondFree_uncounted many, secondFree_reserved (by decide)⟩,
    nfreeclusters_secondFree many⟩

/-- When the transfers of the device succeed, the entries of the FAT are independent cells. -/
theorem put_get (coherent : Coherent geo vol) {c d : ℕ} (hc : geo.IsCluster c)
    (hd : geo.IsCluster d) (value : ℕ) : (getcluster geo (putcluster geo vol c value).1 d).2 =
      if d = c then some (value % geo.type.range) else (getcluster geo vol d).2 := by
  have put := putcluster_spec coherent (.inr hc) hc.2 value
  rw [(getcluster_spec put.coherent hd).value, put.fat d hd.2, (getcluster_spec coherent hd).value]
  exact apply_ite ..

/-- Clusters 2 and 3 share a byte of the FAT12. -/
theorem put_get_neighbour :
    (getcluster twoClusters (putcluster twoClusters fullVolume 2 7).1 3).2 =
      (getcluster twoClusters fullVolume 3).2 :=
  put_get fullVolume_coherent (by decide) (by decide) 7

end NuttxRtos.Fat
