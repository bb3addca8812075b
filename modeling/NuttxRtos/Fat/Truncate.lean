import NuttxRtos.Fat.Chains

/-!
# Truncation and runs of the chain operations

`fat_dirtruncate` frees the whole chain of a file. `fat_dirshrink` means to keep the clusters that
hold data, but marks the last one of them as free as well, so that the FAT stays well formed
exactly when no cluster is to be freed.
-/

namespace NuttxRtos.Fat

open List

variable {geo : Geometry} {vol vol' vol₁ : Volume} {next next' : ℕ → ℕ}

/-! ## Directory entries -/

structure Edited (geo : Geometry) (vol vol' : Volume) : Prop where
  coherent : Coherent geo vol'
  cached : vol'.currentsector = vol.currentsector
  other : ∀ sector i, sector ≠ vol.currentsector → content vol' sector i = content vol sector i

theorem Edited.refl (coherent : Coherent geo vol) : Edited geo vol vol :=
  ⟨coherent, rfl, fun _ _ _ => rfl⟩

section Edited

variable (edited : Edited geo vol vol') (out : ¬ geo.InCopies vol.currentsector)
include edited out

theorem Edited.putByte (index : ℕ) (value : Byte) :
    Edited geo vol (Fat.putByte vol' index value) := by
  obtain ⟨coherent, bytes⟩ := putByte_spec (edited.cached ▸ out) index value
  refine ⟨coherent, edited.cached, fun sector i ne => ?_⟩
  rw [bytes, if_neg (fun same => ne (same.1.trans edited.cached))]
  exact edited.other sector i ne

theorem Edited.putuint16 (index value : ℕ) : Edited geo vol (Fat.putuint16 vol' index value) :=
  (edited.putByte out _ _).putByte out _ _

theorem Edited.dirUpdate (ndx filesize writetime : ℕ) :
    Edited geo vol (Fat.dirUpdate vol' ndx filesize writetime) :=
  ((((edited.putuint16 out _ _).putuint16 out _ _).putByte out _ _).putuint16 out _ _).putuint16
    out _ _

end Edited

/-- The entries of the FAT after work on it and on one directory sector. -/
structure DirStep (geo : Geometry) (dirsector : ℕ) (vol vol' : Volume) (next : ℕ → ℕ) : Prop where
  coherent : Coherent geo vol'
  fat : ∀ cluster < geo.nclusters, fat geo vol' cluster = next cluster
  other : ∀ sector i, i < geo.hwsectorsize → ¬ geo.InCopies sector → ¬ geo.InFat sector →
    sector ≠ dirsector → content vol' sector i = content vol sector i
  cached : vol'.currentsector = dirsector ∨ geo.InFat vol'.currentsector

variable {cluster fuel lastcluster : ℕ} {rest : List ℕ} {remaining : ℤ}

theorem Edited.fat (edited : Edited geo vol vol') (out : ¬ geo.InFat vol.currentsector)
    (lt : cluster < geo.nclusters) : Fat.fat geo vol' cluster = Fat.fat geo vol cluster :=
  entry_congr lt fun _ ltOffset => edited.other _ _ fun eq =>
    out (eq ▸ fatsector_inFat (Nat.lt_of_lt_of_le ltOffset geo.fat_fits))

theorem Edited.andThen (edited : Edited geo vol vol₁) (step : FatStep geo vol₁ vol' next) :
    DirStep geo vol.currentsector vol vol' next :=
  ⟨step.coherent, step.fat, fun sector i lt copies notFat ne =>
    (step.other sector i lt copies notFat).trans (edited.other sector i ne),
    edited.cached ▸ step.cached⟩

/-! ## `fat_dirtruncate` -/

variable {chain : List ℕ} {ndx : ℕ}

theorem dirtruncate_spec (coherent : Coherent geo vol)
    (copies : ¬ geo.InCopies vol.currentsector) (notFat : ¬ geo.InFat vol.currentsector)
    (linked : Linked geo (fat geo vol) chain) (nodup : chain.Nodup)
    (start : Starts geo (dirStart vol.buffer ndx) chain.head?) (writetime : ℕ) :
    (dirtruncate geo vol ndx writetime).2 = true ∧
      DirStep geo vol.currentsector vol (dirtruncate geo vol ndx writetime).1
        (freeAll (fat geo vol) chain) := by
  have edited := (((Edited.refl coherent).putuint16 copies (ndx + 20) 0).putuint16 copies
    (ndx + 26) 0).dirUpdate copies ndx 0 writetime
  have linked' := linked.congr fun cluster mem =>
    edited.fat notFat (linked.isCluster cluster mem).2
  obtain ⟨ok, removed⟩ := removechain_spec edited.coherent linked' nodup start
  generalize eq : dirtruncate geo vol ndx writetime = truncated
  unfold dirtruncate at eq
  dsimp only at eq
  generalize dirUpdate _ ndx 0 writetime = vol₁ at *
  generalize removechain geo vol₁ (dirStart vol.buffer ndx) = result at *
  obtain ⟨vol₂, done⟩ := result
  obtain rfl : done = true := ok
  rw [onSuccess_true] at eq
  have next := nextfree_step removed.coherent
    ((dirStart vol.buffer ndx + 2 ^ 32 - 1) % 2 ^ 32)
  have done := edited.andThen (removed.trans next)
  obtain ⟨back, coherent', same⟩ := fscacheread_spec next.coherent vol₁.currentsector
  rw [← eq]
  refine ⟨rfl, coherent', fun cluster lt => ?_, fun sector i lt copies notFat ne => ?_,
    .inl (back.trans edited.cached)⟩
  · rw [same.fat lt, next.fat cluster lt, removed.fat cluster lt, freeAll, freeAll,
      edited.fat notFat lt]
  · exact (same.content sector i lt copies).trans (done.other sector i lt copies notFat ne)

/-! ## `fat_dirshrink` -/

def Geometry.clustersFor (geo : Geometry) (length : ℤ) : ℕ :=
  ((length + (geo.clustersize - 1)) / geo.clustersize).toNat

theorem Geometry.clustersize_pos (geo : Geometry) : 0 < geo.clustersize :=
  Nat.mul_pos geo.cluster_pos geo.sector_pos

variable {length : ℤ}

theorem Geometry.clustersFor_one (positive : 0 < length)
    (le : length ≤ geo.clustersize) : geo.clustersFor length = 1 := by
  have : (length + (geo.clustersize - 1)) / geo.clustersize = 1 := by
    rw [Int.ediv_eq_iff_of_pos (by omega)]
    omega
  rw [clustersFor, this]
  rfl

theorem Geometry.clustersFor_sub (gt : (geo.clustersize : ℤ) < length) :
    geo.clustersFor length = geo.clustersFor (length - geo.clustersize) + 1 := by
  have size := geo.clustersize_pos
  have split : length + (geo.clustersize - 1 : ℤ) =
      length - geo.clustersize + (geo.clustersize - 1 : ℤ) + geo.clustersize := by omega
  have low : 0 ≤ (length - geo.clustersize + (geo.clustersize - 1 : ℤ)) / geo.clustersize :=
    Int.ediv_nonneg (by omega) (by omega)
  rw [clustersFor, split, Int.add_ediv_of_dvd_right (Int.dvd_refl _),
    Int.ediv_self (by omega), clustersFor]
  omega

theorem Geometry.clustersFor_pos (positive : 0 < length) : 1 ≤ geo.clustersFor length := by
  by_cases le : length ≤ geo.clustersize
  · exact Nat.le_of_eq (clustersFor_one positive le).symm
  · rw [clustersFor_sub (by omega)]
    exact Nat.le_add_left _ _

/-- The clusters that are marked as free when some number of clusters is to be kept. -/
def cut (needed : ℕ) (chain : List ℕ) : List ℕ :=
  if chain.length ≤ needed then [] else chain.drop (needed - 1)

variable {needed : ℕ}

theorem cut_cons (positive : 0 < needed) (cluster : ℕ) (chain : List ℕ) :
    cut (needed + 1) (cluster :: chain) = cut needed chain := by
  obtain ⟨needed, rfl⟩ := Nat.exists_eq_add_one_of_ne_zero (Nat.ne_of_gt positive)
  simp [cut]

theorem freeAll_nil (next : ℕ → ℕ) : freeAll next [] = next := by
  funext cluster
  simp [freeAll]

/-- The end of the loop: the last cluster that holds data is freed with those after it. -/
theorem shrinkLoop_cut (coherent : Coherent geo vol)
    (linked : Linked geo (fat geo vol) (lastcluster :: cluster :: rest))
    (nodup : (lastcluster :: cluster :: rest).Nodup) (le : remaining ≤ geo.clustersize) :
    (shrinkLoop geo (fuel + 1) vol lastcluster cluster remaining).2 = true ∧
      FatStep geo vol (shrinkLoop geo (fuel + 1) vol lastcluster cluster remaining).1
        (freeAll (fat geo vol) (lastcluster :: cluster :: rest)) := by
  obtain ⟨valid, -, tail⟩ := linked
  obtain ⟨notMem, nodup⟩ := nodup_cons.1 nodup
  have put := putcluster_spec coherent (.inr valid) valid.2 0
  rw [shrinkLoop, if_pos tail.1, if_pos le]
  generalize putcluster geo vol lastcluster 0 = result at put
  have linked' : Linked geo (fat geo result.1) (cluster :: rest) := tail.congr fun other mem => by
    rw [put.fat other (tail.isCluster other mem).2, if_neg (ne_of_mem_of_not_mem mem notMem)]
  obtain ⟨ok, removed⟩ := removechain_spec put.coherent linked' nodup rfl
  generalize removechain geo result.1 cluster = result' at ok removed ⊢
  obtain ⟨vol', done⟩ := result'
  obtain rfl : done = true := ok
  have after := nextfree_step removed.coherent (cluster - 1)
  refine ⟨rfl, put.step.trans (removed.trans (after.congr fun other lt => ?_))⟩
  rw [removed.fat other lt, freeAll, put.fat other lt]
  by_cases mem : other ∈ cluster :: rest
  · rw [if_pos mem, freeAll, if_pos (mem_cons_of_mem _ mem)]
  · rw [if_neg mem]
    simp only [freeAll, mem_cons (b := lastcluster), mem, or_false, Nat.zero_mod]

theorem shrinkLoop_spec (enough : rest.length < fuel) (coherent : Coherent geo vol)
    (positive : 0 < remaining) (linked : Linked geo (fat geo vol) (lastcluster :: rest))
    (nodup : (lastcluster :: rest).Nodup) (start : fat geo vol lastcluster = cluster) :
    (shrinkLoop geo fuel vol lastcluster cluster remaining).2 = true ∧
      FatStep geo vol (shrinkLoop geo fuel vol lastcluster cluster remaining).1
        (freeAll (fat geo vol) (cut (geo.clustersFor remaining) (lastcluster :: rest))) := by
  induction rest generalizing vol fuel lastcluster cluster remaining with
  | nil =>
    obtain ⟨fuel, rfl⟩ := Nat.exists_eq_add_one_of_ne_zero (Nat.ne_of_gt enough)
    have mark : geo.nclusters ≤ fat geo vol lastcluster := linked.2.1
    have last : ¬ geo.IsCluster cluster := fun valid => Nat.not_lt.2 (start ▸ mark) valid.2
    have nothing : cut (geo.clustersFor remaining) [lastcluster] = [] :=
      if_pos (Geometry.clustersFor_pos positive)
    rw [shrinkLoop, if_neg last, nothing, freeAll_nil]
    exact ⟨rfl, .refl coherent⟩
  | cons after rest ih =>
    obtain ⟨fuel, rfl⟩ := Nat.exists_eq_add_one_of_ne_zero (Nat.ne_of_gt
      (Nat.lt_of_le_of_lt (Nat.zero_le _) enough))
    obtain rfl : after = cluster := linked.2.1.symm.trans start
    by_cases le : remaining ≤ geo.clustersize
    · rw [Geometry.clustersFor_one positive le, cut, if_neg (by simp)]
      exact shrinkLoop_cut coherent linked nodup le
    obtain ⟨-, -, tail⟩ := linked
    have valid := tail.1
    obtain ⟨vol₁, eq, got⟩ := getcluster_eq coherent valid
    rw [shrinkLoop, if_pos valid, if_neg le, eq]
    have linked' := tail.congr fun other mem => got.same.fat (tail.isCluster other mem).2
    obtain ⟨ok, step⟩ := ih (Nat.lt_of_succ_lt_succ enough) got.coherent
      (by omega : 0 < remaining - geo.clustersize) linked' (nodup_cons.1 nodup).2
      (got.same.fat valid.2)
    rw [Geometry.clustersFor_sub (by omega), cut_cons (Geometry.clustersFor_pos (by omega))]
    refine ⟨ok, got.step.trans (step.congr fun other lt => ?_)⟩
    rw [freeAll, freeAll, got.step.fat other lt]

theorem dirshrink_spec (coherent : Coherent geo vol)
    (copies : ¬ geo.InCopies vol.currentsector) (notFat : ¬ geo.InFat vol.currentsector)
    (linked : Linked geo (fat geo vol) chain) (nodup : chain.Nodup)
    (start : chain.head? = some (dirStart vol.buffer ndx)) (positive : 0 < length) (writetime : ℕ) :
    (dirshrink geo vol ndx length writetime).2 = true ∧
      DirStep geo vol.currentsector vol (dirshrink geo vol ndx length writetime).1
        (freeAll (fat geo vol) (cut (geo.clustersFor length) chain)) := by
  obtain ⟨rest, rfl⟩ := head?_eq_some_iff.1 start
  have edited := (Edited.refl coherent).dirUpdate copies ndx (length % 2 ^ 32).toNat writetime
  generalize eq : dirshrink geo vol ndx length writetime = shrunk
  unfold dirshrink at eq
  dsimp only at eq
  have linked₁ := linked.congr fun cluster mem =>
    edited.fat notFat (linked.isCluster cluster mem).2
  obtain ⟨vol₂, gotten, got⟩ := getcluster_eq edited.coherent linked.1
  rw [gotten] at eq
  have linked₂ := linked₁.congr fun cluster mem =>
    got.same.fat (linked.isCluster cluster mem).2
  have enough := Nat.lt_trans (Nat.lt_succ_self rest.length)
    (Nat.lt_succ_of_le (linked.length_le nodup))
  obtain ⟨ok, step⟩ := shrinkLoop_spec enough got.coherent positive linked₂ nodup
    (got.same.fat linked.1.2)
  rw [← eq]
  refine ⟨ok, edited.andThen (got.step.trans (step.congr fun other lt => ?_))⟩
  rw [freeAll, freeAll, got.step.fat other lt, edited.fat notFat lt]

theorem mem_cut (positive : 1 ≤ needed) (longer : needed < chain.length) :
    ∃ cluster ∈ chain.take needed, cluster ∈ cut needed chain := by
  refine ⟨chain[needed - 1], mem_take_iff_getElem.2 ⟨needed - 1, by omega, rfl⟩, ?_⟩
  rw [cut, if_neg (Nat.not_le.2 longer), mem_drop_iff_getElem]
  exact ⟨0, by omega, by simp⟩

/-- `fat_dirshrink` leaves a well-formed FAT exactly when the file has no cluster too many. -/
theorem shrink_wellFormed {others : List (List ℕ)}
    (positive : 1 ≤ needed) (wf : WellFormed geo next (chain :: others)) :
    WellFormed geo (freeAll next (cut needed chain)) (chain.take needed :: others) ↔
      chain.length ≤ needed := by
  constructor
  · intro after
    refine Nat.not_lt.1 fun longer => ?_
    obtain ⟨cluster, kept, freed⟩ := mem_cut positive longer
    exact after.used (mem_append_left _ kept) (if_pos freed)
  intro le
  rw [cut, if_pos le, freeAll_nil, take_of_length_le le]
  exact wf

/-! ## Runs -/

/-- The operations on chains, and the reading of another sector. -/
inductive Action where
  | create
  | extend (last : ℕ)
  | remove (first : ℕ)
  | truncate (ndx writetime : ℕ)
  | shrink (ndx : ℕ) (length : ℤ) (writetime : ℕ)
  | read (sector : ℕ)

/-- A directory entry can be in the cached sector. -/
def AtDirectory (geo : Geometry) (vol : Volume) : Prop :=
  ¬ geo.InCopies vol.currentsector ∧ ¬ geo.InFat vol.currentsector

/-- What an operation does, and the chains that the files should have after it. -/
inductive Acts (geo : Geometry) (vol : Volume) (chains : List (List ℕ)) :
    Action → Volume → List (List ℕ) → Prop
  | create {vol' : Volume} {new : ℕ} (result : extendchain geo vol 0 = (vol', some new))
      (some : new ≠ 0) : Acts geo vol chains .create vol' ([new] :: chains)
  | createFull {vol' : Volume} (result : extendchain geo vol 0 = (vol', some 0)) :
    Acts geo vol chains .create vol' chains
  | extend {vol' : Volume} {chain : List ℕ} {last new : ℕ} {others : List (List ℕ)}
      (perm : chains.Perm ((chain ++ [last]) :: others))
      (result : extendchain geo vol last = (vol', some new)) (some : new ≠ 0) :
    Acts geo vol chains (.extend last) vol' ((chain ++ [last] ++ [new]) :: others)
  | extendFull {vol' : Volume} {chain : List ℕ} {last : ℕ} {others : List (List ℕ)}
      (perm : chains.Perm ((chain ++ [last]) :: others))
      (result : extendchain geo vol last = (vol', some 0)) :
    Acts geo vol chains (.extend last) vol' chains
  | remove {vol' : Volume} {first : ℕ} {rest : List ℕ} {others : List (List ℕ)}
      (perm : chains.Perm ((first :: rest) :: others))
      (result : (removechain geo vol first).1 = vol') :
    Acts geo vol chains (.remove first) vol' others
  | truncate {vol' : Volume} {ndx writetime : ℕ} {chain : List ℕ} {others : List (List ℕ)}
      (place : AtDirectory geo vol) (perm : chains.Perm (chain :: others))
      (start : chain.head? = some (dirStart vol.buffer ndx))
      (result : (dirtruncate geo vol ndx writetime).1 = vol') :
    Acts geo vol chains (.truncate ndx writetime) vol' others
  | truncateEmpty {vol' : Volume} {ndx writetime : ℕ} (place : AtDirectory geo vol)
      (start : dirStart vol.buffer ndx = 0)
      (result : (dirtruncate geo vol ndx writetime).1 = vol') :
    Acts geo vol chains (.truncate ndx writetime) vol' chains
  | shrink {vol' : Volume} {ndx writetime : ℕ} {length : ℤ} {chain : List ℕ}
      {others : List (List ℕ)} (place : AtDirectory geo vol)
      (perm : chains.Perm (chain :: others))
      (start : chain.head? = some (dirStart vol.buffer ndx)) (positive : 0 < length)
      (smaller : geo.clustersFor length ≤ chain.length)
      (result : (dirshrink geo vol ndx length writetime).1 = vol') :
    Acts geo vol chains (.shrink ndx length writetime) vol'
      (chain.take (geo.clustersFor length) :: others)
  | read {sector : ℕ} {vol' : Volume} (result : fscacheread geo vol sector = vol') :
    Acts geo vol chains (.read sector) vol' chains

/-- The operations from a well-formed FAT on, each of an allowed kind. -/
inductive ChainRun (geo : Geometry) (allowed : Volume → List (List ℕ) → Action → Prop) :
    Volume → List (List ℕ) → Prop
  | start {vol : Volume} {chains : List (List ℕ)} (coherent : Coherent geo vol)
      (wf : WellFormed geo (fat geo vol) chains) : ChainRun geo allowed vol chains
  | step {vol vol' : Volume} {chains chains' : List (List ℕ)} {action : Action}
      (run : ChainRun geo allowed vol chains) (condition : allowed vol chains action)
      (acts : Acts geo vol chains action vol' chains') : ChainRun geo allowed vol' chains'

/-- A file that is shrunk has no cluster too many. -/
def FreesNothing (geo : Geometry) (vol : Volume) (chains : List (List ℕ)) : Action → Prop
  | .shrink ndx length _ => ∀ chain ∈ chains, chain.head? = some (dirStart vol.buffer ndx) →
    chain.length ≤ geo.clustersFor length
  | _ => True

variable {chains : List (List ℕ)}

theorem DirStep.wellFormed {dirsector : ℕ}
    (step : DirStep geo dirsector vol vol' next) (wf : WellFormed geo next chains) :
    Coherent geo vol' ∧ WellFormed geo (Fat.fat geo vol') chains :=
  ⟨step.coherent, wf.congr fun cluster valid => step.fat cluster valid.2⟩

theorem FatStep.wellFormed (step : FatStep geo vol vol' next) (wf : WellFormed geo next chains) :
    Coherent geo vol' ∧ WellFormed geo (Fat.fat geo vol') chains :=
  ⟨step.coherent, wf.congr fun cluster valid => step.fat cluster valid.2⟩

theorem Acts.wellFormed {chains' : List (List ℕ)} {action : Action}
    (acts : Acts geo vol chains action vol' chains') (frees : FreesNothing geo vol chains action)
    (coherent : Coherent geo vol) (wf : WellFormed geo (fat geo vol) chains) :
    Coherent geo vol' ∧ WellFormed geo (fat geo vol') chains' := by
  cases acts with
  | create result some =>
    have alloc := extendchain_zero coherent
    rw [result] at alloc
    cases alloc with
    | full none => exact absurd (Option.some.inj none) some
    | new _ value valid free step =>
      cases value
      exact step.wellFormed (wf.create valid free)
  | createFull result =>
    have alloc := extendchain_zero coherent
    rw [result] at alloc
    cases alloc with
    | full _ _ step => exact step.wellFormed wf
    | new _ value valid =>
      cases value
      exact absurd valid.1 (by decide)
  | extend perm result some =>
    replace wf := wf.perm perm
    obtain ⟨-, linked⟩ := wf.linked _ mem_cons_self
    have alloc := extendchain_last coherent (linked.isCluster _ (by simp)) linked.last
    rw [result] at alloc
    cases alloc with
    | full none => exact absurd (Option.some.inj none) some
    | new _ value valid free step =>
      cases value
      exact step.wellFormed (wf.extend valid free)
  | extendFull perm result =>
    obtain ⟨-, linked⟩ := (wf.perm perm).linked _ mem_cons_self
    have alloc := extendchain_last coherent (linked.isCluster _ (by simp)) linked.last
    rw [result] at alloc
    cases alloc with
    | full _ _ step => exact step.wellFormed wf
    | new _ value valid =>
      cases value
      exact absurd valid.1 (by decide)
  | remove perm result =>
    replace wf := wf.perm perm
    obtain ⟨-, linked⟩ := wf.linked _ mem_cons_self
    rw [← result]
    exact (removechain_spec coherent linked wf.nodup rfl).2.wellFormed wf.remove
  | truncate place perm start result =>
    replace wf := wf.perm perm
    obtain ⟨-, linked⟩ := wf.linked _ mem_cons_self
    rw [← result]
    refine (dirtruncate_spec coherent place.1 place.2 linked wf.nodup ?_ _).2.wellFormed wf.remove
    rw [start]
    rfl
  | @truncateEmpty _ _ writetime place start result =>
    have empty : Linked geo (fat geo vol) [] := trivial
    have nothing : ¬ geo.IsCluster 0 := fun valid => absurd valid.1 (by decide)
    rw [← start] at nothing
    have step := (dirtruncate_spec coherent place.1 place.2 empty nodup_nil nothing
      writetime).2
    rw [result, freeAll_nil] at step
    exact step.wellFormed wf
  | shrink place perm start positive _ result =>
    have le := frees _ (perm.mem_iff.2 mem_cons_self) start
    replace wf := wf.perm perm
    obtain ⟨-, linked⟩ := wf.linked _ mem_cons_self
    rw [← result]
    exact (dirshrink_spec coherent place.1 place.2 linked wf.nodup start positive _).2.wellFormed
      ((shrink_wellFormed (Geometry.clustersFor_pos positive) wf).2 le)
  | @read sector _ result =>
    obtain ⟨-, coherent', same⟩ := fscacheread_spec coherent sector
    rw [← result]
    exact ⟨coherent', wf.congr fun cluster valid => same.fat valid.2⟩

/-- Sector 1 is the FAT, sector 2 the root directory, and sectors 3 and 4 are clusters 2 and 3. -/
def twoClusters : Geometry where
  type := .fat12
  hwsectorsize := 512
  fatsecperclus := 1
  nclusters := 4
  fatbase := 1
  nfatsects := 1
  fatnumfats := 1
  database := 3
  sector_pow := ⟨4, rfl⟩
  cluster_pow := ⟨0, rfl⟩
  clusters_lt := by decide
  fat_fits := by decide
  fatbase_pos := by decide
  fats_pos := by decide
  fats_le := by decide
  sectors_lt := by decide

/-- The only file has both clusters, and its directory entry is cached. -/
def fullVolume : Volume where
  disk sector i :=
    if sector = 1 then if i = 3 then 3 else if i = 4 then 0xf0 else if i = 5 then 0xff else 0
    else if sector = 2 ∧ i = 26 then 2 else 0
  buffer i := if i = 26 then 2 else 0
  currentsector := 2
  dirty := false
  fsinextfree := 0
  fsifreecount := 0
  fsidirty := false

theorem fullVolume_coherent : Coherent twoClusters fullVolume := by
  refine ⟨fun _ i _ => ?_, nofun⟩
  simp [fullVolume]

theorem fullVolume_wellFormed : WellFormed twoClusters (fat twoClusters fullVolume) [[2, 3]] := by
  refine ⟨fun chain mem => ?_, by decide, fun cluster valid notMem => ?_⟩
  · obtain rfl := mem_singleton.1 mem
    exact ⟨by decide, by decide, rfl, by decide, by decide, trivial⟩
  have low : 2 ≤ cluster := valid.1
  have high : cluster < 4 := valid.2
  have notMem : ¬ (cluster = 2 ∨ cluster = 3) := by simpa using notMem
  omega

end NuttxRtos.Fat
