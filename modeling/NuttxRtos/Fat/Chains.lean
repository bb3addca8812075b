import Mathlib.Data.List.Perm.Subperm
import NuttxRtos.Fat.Cache

/-!
# Cluster chains

A FAT is well formed for some chains if they are linked to an end mark, share no cluster, and every
other cluster is free.
-/

namespace NuttxRtos.Fat

open List

variable {geo : Geometry} {vol vol' : Volume} {next next' : ℕ → ℕ}

/-- An entry names the cluster that follows, or is an end mark. -/
def Successor (geo : Geometry) (entry : ℕ) : Option ℕ → Prop
  | none => geo.nclusters ≤ entry
  | some after => entry = after

instance (entry : ℕ) (after : Option ℕ) : Decidable (Successor geo entry after) :=
  match after with
  | none => inferInstanceAs (Decidable (_ ≤ _))
  | some _ => inferInstanceAs (Decidable (_ = _))

/-- Each cluster names the next one, and the last one has an end mark. -/
def Linked (geo : Geometry) (next : ℕ → ℕ) : List ℕ → Prop
  | [] => True
  | cluster :: rest =>
    geo.IsCluster cluster ∧ Successor geo (next cluster) rest.head? ∧ Linked geo next rest

/-- The FAT consists of these chains and free clusters. -/
structure WellFormed (geo : Geometry) (next : ℕ → ℕ) (chains : List (List ℕ)) : Prop where
  linked : ∀ chain ∈ chains, chain ≠ [] ∧ Linked geo next chain
  disjoint : chains.flatten.Nodup
  free : ∀ cluster, geo.IsCluster cluster → cluster ∉ chains.flatten → next cluster = 0

/-! ## Links -/

variable {chain : List ℕ}

theorem Linked.isCluster (linked : Linked geo next chain) :
    ∀ cluster ∈ chain, geo.IsCluster cluster := by
  induction chain with
  | nil => simp
  | cons cluster rest ih => exact forall_mem_cons.2 ⟨linked.1, ih linked.2.2⟩

theorem Linked.congr (linked : Linked geo next chain)
    (same : ∀ cluster ∈ chain, next' cluster = next cluster) : Linked geo next' chain := by
  induction chain with
  | nil => trivial
  | cons cluster rest ih =>
    obtain ⟨valid, link, tail⟩ := linked
    refine ⟨valid, ?_, ih tail fun other mem => same other (mem_cons_of_mem cluster mem)⟩
    rw [same cluster mem_cons_self]
    exact link

variable {new fuel candidate : ℕ} {others : List (List ℕ)}

theorem Linked.append {last : ℕ} (linked : Linked geo next (chain ++ [last]))
    (same : ∀ cluster ∈ chain, next' cluster = next cluster) (link : next' last = new)
    (valid : geo.IsCluster new) (mark : geo.nclusters ≤ next' new) :
    Linked geo next' (chain ++ [last] ++ [new]) := by
  induction chain with
  | nil => exact ⟨linked.1, link, valid, mark, trivial⟩
  | cons cluster rest ih =>
    obtain ⟨validHead, follows, tail⟩ := linked
    refine ⟨validHead, ?_, ih tail fun other mem => same other (mem_cons_of_mem cluster mem)⟩
    rw [same cluster mem_cons_self]
    cases rest <;> exact follows

variable {cluster : ℕ}

theorem Linked.single (valid : geo.IsCluster cluster)
    (mark : geo.nclusters ≤ next cluster) : Linked geo next [cluster] := ⟨valid, mark, trivial⟩

/-- A number to start from: the first cluster of a chain, or no cluster at all. -/
def Starts (geo : Geometry) (start : ℕ) : Option ℕ → Prop
  | none => ¬ geo.IsCluster start
  | some first => start = first

theorem Successor.start {entry : ℕ} {after : Option ℕ} (h : Successor geo entry after) :
    Starts geo entry after := by
  cases after with
  | none => exact fun valid => Nat.not_lt.2 h valid.2
  | some after => exact h

theorem Linked.last {last : ℕ} (linked : Linked geo next (chain ++ [last])) :
    geo.nclusters ≤ next last := by
  induction chain with
  | nil => exact linked.2.1
  | cons cluster rest ih => exact ih linked.2.2

theorem Linked.ne_zero (linked : Linked geo next chain) : ∀ cluster ∈ chain, next cluster ≠ 0 := by
  induction chain with
  | nil => simp
  | cons cluster rest ih =>
    obtain ⟨⟨-, high⟩, link, tail⟩ := linked
    refine forall_mem_cons.2 ⟨?_, ih tail⟩
    cases rest with
    | nil =>
      have : geo.nclusters ≤ next cluster := link
      omega
    | cons after rest =>
      have : next cluster = after := link
      have := tail.1.1
      omega

/-! ## Chains of a well-formed FAT -/

variable {chains : List (List ℕ)}

theorem WellFormed.perm {chains' : List (List ℕ)} (wf : WellFormed geo next chains)
    (perm : chains.Perm chains') : WellFormed geo next chains' where
  linked chain mem := wf.linked chain (perm.mem_iff.2 mem)
  disjoint := (perm.flatten.nodup_iff).1 wf.disjoint
  free cluster valid notMem := wf.free cluster valid fun mem => notMem (perm.flatten.mem_iff.1 mem)

theorem WellFormed.used (wf : WellFormed geo next chains)
    (mem : cluster ∈ chains.flatten) : next cluster ≠ 0 := by
  obtain ⟨chain, memChain, mem⟩ := mem_flatten.1 mem
  exact (wf.linked chain memChain).2.ne_zero cluster mem

section Replace

variable {old others : List (List ℕ)}

theorem WellFormed.split (wf : WellFormed geo next (old ++ others)) :
    old.flatten.Nodup ∧ others.flatten.Nodup ∧
      ∀ cluster ∈ old.flatten, cluster ∉ others.flatten := by
  obtain ⟨first, second, apart⟩ := nodup_append.1 (flatten_append ▸ wf.disjoint)
  exact ⟨first, second, fun cluster mem other => apart cluster mem cluster other rfl⟩

theorem WellFormed.nodup (wf : WellFormed geo next (chain :: others)) : chain.Nodup :=
  (nodup_append.1 (flatten_cons ▸ wf.disjoint)).1

/-- Some chains are replaced by chains over their own clusters and clusters that were free; the
rest of their clusters become free. -/
theorem WellFormed.replace (old new : List (List ℕ)) (wf : WellFormed geo next (old ++ others))
    (linked : ∀ chain ∈ new, chain ≠ [] ∧ Linked geo next' chain) (nodup : new.flatten.Nodup)
    (own : ∀ cluster ∈ new.flatten, cluster ∈ old.flatten ∨ next cluster = 0)
    (same : ∀ cluster, geo.IsCluster cluster → cluster ∉ old.flatten → cluster ∉ new.flatten →
      next' cluster = next cluster)
    (freed : ∀ cluster ∈ old.flatten, cluster ∉ new.flatten → next' cluster = 0) :
    WellFormed geo next' (new ++ others) := by
  obtain ⟨-, nodupOthers, apart⟩ := wf.split
  have notNew : ∀ cluster ∈ others.flatten, cluster ∉ old.flatten ∧ cluster ∉ new.flatten := by
    intro cluster mem
    have notOld : cluster ∉ old.flatten := fun memOld => apart cluster memOld mem
    refine ⟨notOld, fun memNew => ?_⟩
    have used := wf.used (flatten_append ▸ mem_append_right _ mem)
    exact (own cluster memNew).elim notOld used
  refine ⟨fun other mem => ?_, ?_, fun cluster valid notMem => ?_⟩
  · rcases mem_append.1 mem with mem | mem
    · exact linked other mem
    obtain ⟨nonempty, before⟩ := wf.linked other (mem_append_right old mem)
    refine ⟨nonempty, before.congr fun cluster memOther => ?_⟩
    obtain ⟨notOld, notMem⟩ := notNew cluster (mem_flatten.2 ⟨other, mem, memOther⟩)
    exact same cluster (before.isCluster cluster memOther) notOld notMem
  · rw [flatten_append]
    refine nodup_append.2 ⟨nodup, nodupOthers, ?_⟩
    rintro cluster memNew _ memOther rfl
    exact (notNew cluster memOther).2 memNew
  rw [flatten_append, mem_append, not_or] at notMem
  by_cases mem : cluster ∈ old.flatten
  · exact freed cluster mem notMem.1
  rw [same cluster valid mem notMem.1]
  refine wf.free cluster valid ?_
  rw [flatten_append, mem_append, not_or]
  exact ⟨mem, notMem.2⟩

end Replace

theorem WellFormed.congr (wf : WellFormed geo next chains)
    (same : ∀ cluster, geo.IsCluster cluster → next' cluster = next cluster) :
    WellFormed geo next' chains where
  linked chain mem := by
    obtain ⟨nonempty, linked⟩ := wf.linked chain mem
    exact ⟨nonempty, linked.congr fun cluster mem => same cluster (linked.isCluster cluster mem)⟩
  disjoint := wf.disjoint
  free cluster valid notMem := by
    rw [same cluster valid]
    exact wf.free cluster valid notMem

/-! ## Work on the FAT -/

/-- The entries of the FAT after some work on it; other sectors hold what they held, and if another
sector is cached, it is one of the FAT. -/
structure FatStep (geo : Geometry) (vol vol' : Volume) (next : ℕ → ℕ) : Prop where
  coherent : Coherent geo vol'
  fat : ∀ cluster < geo.nclusters, fat geo vol' cluster = next cluster
  other : ∀ sector i, i < geo.hwsectorsize → ¬ geo.InCopies sector → ¬ geo.InFat sector →
    content vol' sector i = content vol sector i
  cached : vol'.currentsector = vol.currentsector ∨ geo.InFat vol'.currentsector

theorem FatStep.refl (coherent : Coherent geo vol) : FatStep geo vol vol (Fat.fat geo vol) :=
  ⟨coherent, fun _ _ => rfl, fun _ _ _ _ _ => rfl, .inl rfl⟩

theorem FatStep.trans {vol₁ vol₂ vol₃ : Volume} (h : FatStep geo vol₁ vol₂ next)
    (g : FatStep geo vol₂ vol₃ next') : FatStep geo vol₁ vol₃ next' := by
  refine ⟨g.coherent, g.fat, fun sector i lt copies notFat =>
    (g.other sector i lt copies notFat).trans (h.other sector i lt copies notFat), ?_⟩
  rcases g.cached with same | inFat
  · rw [same]
    exact h.cached
  · exact .inr inFat

theorem FatStep.congr (h : FatStep geo vol vol' next)
    (same : ∀ cluster < geo.nclusters, next cluster = next' cluster) : FatStep geo vol vol' next' :=
  ⟨h.coherent, fun cluster lt => (h.fat cluster lt).trans (same cluster lt), h.other, h.cached⟩

variable {result : Volume × Option ℕ}

theorem GotCluster.step
    (got : GotCluster geo vol cluster result) : FatStep geo vol result.1 (fat geo vol) :=
  ⟨got.coherent, fun _ lt => got.same.fat lt,
    fun sector i lt copies _ => got.same.content sector i lt copies, .inr got.cached⟩

def setEntry (next : ℕ → ℕ) (cluster value : ℕ) : ℕ → ℕ :=
  fun other => if other = cluster then value else next other

theorem PutCluster.step {value : ℕ} {result : Volume × Bool}
    (put : PutCluster geo vol cluster value result) :
    FatStep geo vol result.1 (setEntry (Fat.fat geo vol) cluster (value % geo.type.range)) :=
  ⟨put.coherent, put.fat, put.other, .inr put.cached⟩

section

variable (coherent : Coherent geo vol)
include coherent

theorem FatStep.counts (freecount nextfree : ℕ) (dirty : Bool) :
    FatStep geo vol { vol with
      fsifreecount := freecount, fsinextfree := nextfree, fsidirty := dirty } (Fat.fat geo vol) :=
  { FatStep.refl coherent with coherent := { coherent with } }

theorem countFree_step :
    FatStep geo vol (countFree vol) (fat geo vol) := by
  unfold countFree
  split
  · exact .refl coherent
  · exact .counts coherent ..

theorem countUsed_step :
    FatStep geo vol (countUsed vol) (fat geo vol) := by
  unfold countUsed
  split
  · exact .refl coherent
  · exact .counts coherent ..

theorem nextfree_step (nextfree : ℕ) :
    FatStep geo vol { vol with fsinextfree := nextfree } (fat geo vol) :=
  .counts coherent ..

end

/-! ## Removal -/

def freeAll (next : ℕ → ℕ) (chain : List ℕ) : ℕ → ℕ :=
  fun cluster => if cluster ∈ chain then 0 else next cluster

theorem removeLoop_succ (coherent : Coherent geo vol) (valid : geo.IsCluster cluster) (fuel : ℕ) :
    ∃ vol', FatStep geo vol vol' (setEntry (fat geo vol) cluster 0) ∧
      (vol.fsifreecount < 2 ^ 32 - 1 → vol'.fsifreecount = (vol.fsifreecount + 1) % 2 ^ 32) ∧
      removeLoop geo (fuel + 1) vol cluster = removeLoop geo fuel vol' (fat geo vol cluster) := by
  obtain ⟨vol₁, eq, got⟩ := getcluster_eq coherent valid
  have count := getcluster_count geo vol cluster
  rw [removeLoop, if_pos valid, eq]
  rw [eq] at count
  have put := putcluster_spec got.coherent (.inr valid) valid.2 0
  refine ⟨_, got.step.trans (put.step.trans (countFree_step put.coherent)) |>.congr ?_, ?_, rfl⟩
  · intro other lt
    rw [put.fat other lt, setEntry, got.step.fat other lt, Nat.zero_mod]
  · intro known
    rw [countFree, putcluster_count, count, if_neg (Nat.ne_of_lt known)]

theorem removeLoop_spec (enough : chain.length < fuel) (coherent : Coherent geo vol)
    (linked : Linked geo (fat geo vol) chain) (nodup : chain.Nodup)
    (start : Starts geo cluster chain.head?) :
    (removeLoop geo fuel vol cluster).2 = true ∧
      FatStep geo vol (removeLoop geo fuel vol cluster).1 (freeAll (fat geo vol) chain) ∧
      (vol.fsifreecount + chain.length < 2 ^ 32 - 1 →
        (removeLoop geo fuel vol cluster).1.fsifreecount = vol.fsifreecount + chain.length) := by
  induction chain generalizing vol fuel cluster with
  | nil =>
    obtain ⟨fuel, rfl⟩ := Nat.exists_eq_succ_of_ne_zero (Nat.ne_of_gt enough)
    rw [removeLoop, if_neg start]
    refine ⟨rfl, (FatStep.refl coherent).congr fun other _ => ?_, fun _ => rfl⟩
    simp [freeAll]
  | cons first rest ih =>
    obtain rfl : cluster = first := start
    obtain ⟨valid, link, tail⟩ := linked
    obtain ⟨notMem, nodup⟩ := nodup_cons.1 nodup
    cases fuel with
    | zero => exact absurd enough (Nat.not_lt_zero _)
    | succ fuel =>
      obtain ⟨vol', step, count, loop⟩ := removeLoop_succ coherent valid fuel
      have linked' : Linked geo (fat geo vol') rest := tail.congr fun other mem => by
        rw [step.fat other (tail.isCluster other mem).2, setEntry,
          if_neg (ne_of_mem_of_not_mem mem notMem)]
      have start' : Starts geo (fat geo vol cluster) rest.head? := link.start
      obtain ⟨ok, loopStep, counts⟩ :=
        ih (Nat.lt_of_succ_lt_succ enough) step.coherent linked' nodup start'
      rw [loop]
      refine ⟨ok, step.trans (loopStep.congr fun other lt => ?_), fun known => ?_⟩
      · simp only [freeAll, mem_cons, step.fat other lt, setEntry]
        by_cases mem : other ∈ rest <;> simp [mem]
      rw [length_cons] at known ⊢
      omega

theorem Linked.length_le (linked : Linked geo next chain) (nodup : chain.Nodup) :
    chain.length ≤ geo.nclusters := by
  have subset : chain ⊆ List.range geo.nclusters := fun cluster mem =>
    mem_range.2 (linked.isCluster cluster mem).2
  simpa using (subperm_of_subset nodup subset).length_le

theorem removechain_spec (coherent : Coherent geo vol)
    (linked : Linked geo (fat geo vol) chain) (nodup : chain.Nodup)
    (start : Starts geo cluster chain.head?) :
    (removechain geo vol cluster).2 = true ∧
      FatStep geo vol (removechain geo vol cluster).1 (freeAll (fat geo vol) chain) := by
  have removed := removeLoop_spec (Nat.lt_succ_of_le (linked.length_le nodup)) coherent linked nodup
    start
  exact ⟨removed.1, removed.2.1⟩

/-! ## Allocation -/

/-- The clusters that the search has not come to: it goes up from behind the start, and from 2 to
the start after that. -/
def Ahead (startcluster newcluster cluster : ℕ) : Prop :=
  if startcluster ≤ newcluster then newcluster < cluster ∨ cluster ≤ startcluster
  else newcluster < cluster ∧ cluster ≤ startcluster

def roundsLeft (geo : Geometry) (startcluster newcluster : ℕ) : ℕ :=
  if startcluster ≤ newcluster then geo.nclusters - 1 - newcluster + (startcluster - 1)
  else startcluster - newcluster

variable {startcluster newcluster : ℕ}

theorem nextCandidate_none
    (start : 1 ≤ startcluster) (stops : nextCandidate geo startcluster newcluster = none)
    (valid : geo.IsCluster cluster) : ¬ Ahead startcluster newcluster cluster := by
  obtain ⟨low, high⟩ := valid
  unfold nextCandidate at stops
  unfold Ahead
  split at stops
  · split at stops
    · split <;> omega
    · cases stops
  · cases stops

/-- The candidate is a cluster, and the only one that is not ahead any more. -/
theorem nextCandidate_some (positive : 1 ≤ newcluster)
    (start : 1 ≤ startcluster ∧ startcluster < geo.nclusters ∨ startcluster = 1)
    (goes : nextCandidate geo startcluster newcluster = some candidate) :
    geo.IsCluster candidate ∧
      (∀ cluster, geo.IsCluster cluster → Ahead startcluster newcluster cluster →
        cluster = candidate ∨ candidate ≠ startcluster ∧ Ahead startcluster candidate cluster) ∧
      (candidate ≠ startcluster →
        roundsLeft geo startcluster candidate < roundsLeft geo startcluster newcluster) := by
  unfold nextCandidate at goes
  have place : geo.IsCluster candidate ∧ (candidate = newcluster + 1 ∧
      newcluster + 1 < geo.nclusters ∨ candidate = 2 ∧ geo.nclusters ≤ newcluster + 1 ∧
      2 ≤ startcluster) := by
    simp only [Geometry.IsCluster]
    split at goes
    · split at goes
      · cases goes
      · cases goes
        omega
    · cases goes
      omega
  obtain ⟨valid, place⟩ := place
  refine ⟨valid, fun cluster validCluster ahead => ?_, fun ne => ?_⟩
  · obtain ⟨low, high⟩ := validCluster
    unfold Ahead at ahead ⊢
    split at ahead <;> split <;> omega
  obtain ⟨low, high⟩ := valid
  unfold roundsLeft
  split <;> split <;> omega

theorem findFree_succ (coherent : Coherent geo vol)
    (goes : nextCandidate geo startcluster newcluster = some candidate)
    (valid : geo.IsCluster candidate) (fuel : ℕ) :
    ∃ vol', FatStep geo vol vol' (fat geo vol) ∧
      findFree geo (fuel + 1) vol startcluster newcluster =
        if fat geo vol candidate = 0 then (vol', some candidate)
        else if candidate = startcluster then (vol', some 0)
        else findFree geo fuel vol' startcluster candidate := by
  obtain ⟨vol', eq, got⟩ := getcluster_eq coherent valid
  rw [findFree, goes]
  dsimp only
  rw [eq]
  refine ⟨vol', got.step, ?_⟩
  generalize fat geo vol candidate = value
  cases value <;> rfl

theorem findFree_spec (coherent : Coherent geo vol) (positive : 1 ≤ newcluster)
    (start : 1 ≤ startcluster ∧ startcluster < geo.nclusters ∨ startcluster = 1)
    (enough : roundsLeft geo startcluster newcluster < fuel) :
    ∃ vol' new, findFree geo fuel vol startcluster newcluster = (vol', some new) ∧
      FatStep geo vol vol' (fat geo vol) ∧
      (new = 0 ∧ (∀ cluster, geo.IsCluster cluster → Ahead startcluster newcluster cluster →
          fat geo vol cluster ≠ 0) ∨ geo.IsCluster new ∧ fat geo vol new = 0) := by
  induction fuel generalizing vol newcluster with
  | zero => exact absurd enough (Nat.not_lt_zero _)
  | succ fuel ih =>
    cases goes : nextCandidate geo startcluster newcluster with
    | none =>
      rw [findFree, goes]
      refine ⟨vol, 0, rfl, .refl coherent, .inl ⟨rfl, fun cluster valid ahead => ?_⟩⟩
      exact absurd ahead (nextCandidate_none (by omega) goes valid)
    | some candidate =>
      obtain ⟨valid, onlyCandidate, fewer⟩ := nextCandidate_some positive start goes
      obtain ⟨vol₁, round, eq⟩ := findFree_succ coherent goes valid fuel
      rw [eq]
      split
      · next free => exact ⟨vol₁, candidate, rfl, round, .inr ⟨valid, free⟩⟩
      next used =>
      split
      · next last =>
        refine ⟨vol₁, 0, rfl, round, .inl ⟨rfl, fun cluster validCluster ahead => ?_⟩⟩
        rcases onlyCandidate cluster validCluster ahead with rfl | ⟨ne, -⟩
        · exact used
        · exact absurd last ne
      next goesOn =>
      obtain ⟨vol', new, found, step, result⟩ :=
        ih round.coherent (Nat.le_of_lt valid.1) (by have := fewer goesOn; omega)
      refine ⟨vol', new, found, round.trans (step.congr round.fat), ?_⟩
      rcases result with ⟨rfl, full⟩ | ⟨validNew, freeNew⟩
      · refine .inl ⟨rfl, fun cluster validCluster ahead => ?_⟩
        rcases onlyCandidate cluster validCluster ahead with rfl | ⟨-, ahead⟩
        · exact used
        · rw [← round.fat cluster validCluster.2]
          exact full cluster validCluster ahead
      · exact .inr ⟨validNew, round.fat new validNew.2 ▸ freeNew⟩

theorem endMark (geo : Geometry) : geo.nclusters ≤ 0x0fffffff % geo.type.range := by
  have := geo.clusters_lt
  cases type : geo.type <;> rw [type] at this <;> simp only [FatType.range] at this ⊢ <;> omega

/-- The entries after a free cluster is marked as the last one and linked to another one. -/
def linkEntries (geo : Geometry) (next : ℕ → ℕ) (cluster new : ℕ) : ℕ → ℕ :=
  let marked := setEntry next new (0x0fffffff % geo.type.range)
  if cluster = 0 then marked else setEntry marked cluster new

theorem linkEntries_congr {other : ℕ} (same : next other = next' other) :
    linkEntries geo next cluster new other = linkEntries geo next' cluster new other := by
  simp only [linkEntries, apply_ite (fun f : ℕ → ℕ => f other), setEntry, same]

theorem linkCluster_spec (coherent : Coherent geo vol) (valid : geo.IsCluster new)
    (old : cluster = 0 ∨ geo.IsCluster cluster) :
    FatStep geo vol (linkCluster geo vol cluster new)
      (linkEntries geo (fat geo vol) cluster new) := by
  have first := putcluster_spec coherent (.inr valid) valid.2 0x0fffffff
  rw [linkCluster, linkEntries]
  have ends {vol' : Volume} {next : ℕ → ℕ} (step : FatStep geo vol vol' next) :
      FatStep geo vol (countUsed { vol' with fsinextfree := new }) next := by
    have after := nextfree_step step.coherent new
    refine step.trans (after.trans (countUsed_step after.coherent) |>.congr fun other lt => ?_)
    rw [after.fat other lt, step.fat other lt]
  by_cases none : cluster = 0
  · rw [if_neg (fun ne => ne none), if_pos none]
    exact ends first.step
  rw [if_pos none, if_neg none]
  have second := putcluster_spec first.coherent old (old.resolve_left none).2 new
  refine ends (first.step.trans (second.step.congr fun other lt => ?_))
  have small := Nat.mod_eq_of_lt (Nat.lt_trans valid.2 geo.clusters_lt)
  simp only [setEntry, first.step.fat other lt, small]

/-- There is no free cluster, or one is taken. -/
inductive Allocation (geo : Geometry) (vol : Volume) (cluster : ℕ) (result : Volume × Option ℕ) :
    Prop
  | full (value : result.2 = some 0)
      (none : ∀ cluster, geo.IsCluster cluster → fat geo vol cluster ≠ 0)
      (step : FatStep geo vol result.1 (fat geo vol))
  | new (new : ℕ) (value : result.2 = some new) (valid : geo.IsCluster new)
      (free : fat geo vol new = 0)
      (step : FatStep geo vol result.1 (linkEntries geo (fat geo vol) cluster new))

theorem Allocation.after
    (step : FatStep geo vol vol' (fat geo vol)) (alloc : Allocation geo vol' cluster result) :
    Allocation geo vol cluster result := by
  cases alloc with
  | full value none after =>
    refine .full value (fun other valid => ?_) (step.trans (after.congr step.fat))
    rw [← step.fat other valid.2]
    exact none other valid
  | new new value valid free after =>
    refine .new new value valid ?_
      (step.trans (after.congr fun other lt => linkEntries_congr (step.fat other lt)))
    rw [← step.fat new valid.2]
    exact free

theorem allocate_spec (coherent : Coherent geo vol)
    (start : 1 ≤ startcluster ∧ startcluster < geo.nclusters ∨ startcluster = 1)
    (old : cluster = 0 ∨ geo.IsCluster cluster) :
    Allocation geo vol cluster (allocate geo vol cluster startcluster) := by
  by_cases empty : geo.nclusters = 0
  · rw [allocate, empty, findFree]
    refine .full rfl (fun cluster valid => ?_) (.refl coherent)
    exact absurd (empty ▸ valid.2) (Nat.not_lt_zero _)
  have enough : roundsLeft geo startcluster startcluster < geo.nclusters := by
    rw [roundsLeft, if_pos (Nat.le_refl _)]
    omega
  obtain ⟨vol', new, found, step, result⟩ := findFree_spec coherent (by omega) start enough
  rw [allocate, found]
  rcases result with ⟨rfl, full⟩ | ⟨valid, free⟩
  · refine .full rfl (fun cluster valid => full cluster valid ?_) step
    rw [Ahead, if_pos (Nat.le_refl _)]
    exact Nat.lt_or_ge _ _
  obtain ⟨k, rfl⟩ := Nat.exists_eq_add_of_lt (Nat.lt_of_lt_of_le Nat.zero_lt_two valid.1)
  have linked := linkCluster_spec step.coherent valid old
  exact .new _ rfl valid free
    (step.trans (linked.congr fun other lt => linkEntries_congr (step.fat other lt)))

theorem extendchain_zero (coherent : Coherent geo vol) :
    Allocation geo vol 0 (extendchain geo vol 0) := by
  refine allocate_spec coherent ?_ (.inl rfl)
  split <;> omega

theorem extendchain_last (coherent : Coherent geo vol) {last : ℕ} (valid : geo.IsCluster last)
    (mark : geo.nclusters ≤ fat geo vol last) :
    Allocation geo vol last (extendchain geo vol last) := by
  obtain ⟨vol₁, eq, got⟩ := getcluster_eq coherent valid
  have low := valid.1
  have high := valid.2
  rw [extendchain, if_neg (by omega), eq]
  dsimp only
  rw [if_neg (by omega), if_neg (by omega)]
  exact .after got.step (allocate_spec got.coherent (.inl ⟨by omega, high⟩) (.inr valid))

/-! ## The chains after allocation and removal -/

theorem WellFormed.remove (wf : WellFormed geo next (chain :: others)) :
    WellFormed geo (freeAll next chain) others := by
  have flat : [chain].flatten = chain := by simp
  refine WellFormed.replace [chain] [] wf (by simp) (by simp) (by simp) ?_ ?_
  · intro cluster _ notMem _
    rw [flat] at notMem
    exact if_neg notMem
  intro cluster mem _
  rw [flat] at mem
  exact if_pos mem

theorem WellFormed.create (wf : WellFormed geo next chains) (valid : geo.IsCluster new)
    (free : next new = 0) : WellFormed geo (linkEntries geo next 0 new) ([new] :: chains) := by
  refine WellFormed.replace [] [[new]] wf ?_ (by simp) ?_ ?_ (by simp)
  · intro chain mem
    obtain rfl := mem_singleton.1 mem
    refine ⟨cons_ne_nil _ _, .single valid ?_⟩
    rw [linkEntries, if_pos rfl, setEntry, if_pos rfl]
    exact endMark geo
  · intro cluster mem
    obtain rfl : cluster = new := by simpa using mem
    exact .inr free
  intro cluster _ _ notMem
  have ne : cluster ≠ new := by simpa using notMem
  rw [linkEntries, if_pos rfl, setEntry, if_neg ne]

theorem WellFormed.extend {last : ℕ} (wf : WellFormed geo next ((chain ++ [last]) :: others))
    (valid : geo.IsCluster new) (free : next new = 0) :
    WellFormed geo (linkEntries geo next last new) ((chain ++ [last] ++ [new]) :: others) := by
  obtain ⟨-, linked⟩ := wf.linked _ mem_cons_self
  have nodup := wf.nodup
  have used := (linked.ne_zero last (by simp))
  have ne : last ≠ new := fun eq => used (eq ▸ free)
  have notMem : new ∉ chain ++ [last] := fun mem => linked.ne_zero new mem free
  have ltLast := (linked.isCluster last (by simp)).1
  have entries (cluster : ℕ) : linkEntries geo next last new cluster =
      if cluster = last then new
      else if cluster = new then 0x0fffffff % geo.type.range else next cluster := by
    rw [linkEntries, if_neg (by omega)]
    rfl
  refine WellFormed.replace [chain ++ [last]] [chain ++ [last] ++ [new]] wf ?_ ?_ ?_ ?_ ?_
  · intro other mem
    obtain rfl := mem_singleton.1 mem
    refine ⟨by simp, linked.append (fun cluster memChain => ?_) ?_ valid ?_⟩
    · have neLast : cluster ≠ last := by
        rintro rfl
        exact (nodup_append.1 nodup).2.2 cluster memChain cluster (by simp) rfl
      have neNew : cluster ≠ new := fun eq => notMem (eq ▸ mem_append_left _ memChain)
      rw [entries, if_neg neLast, if_neg neNew]
    · rw [entries, if_pos rfl]
    · rw [entries, if_neg ne.symm, if_pos rfl]
      exact endMark geo
  · rw [flatten_singleton]
    refine nodup_append.2 ⟨nodup, by simp, ?_⟩
    rintro cluster mem _ memNew rfl
    exact notMem (mem_singleton.1 memNew ▸ mem)
  · simp only [flatten_singleton]
    intro cluster mem
    rcases mem_append.1 mem with mem | mem
    · exact .inl mem
    · rw [mem_singleton.1 mem]
      exact .inr free
  · simp only [flatten_singleton, mem_append, mem_singleton, not_or]
    intro cluster _ notOld notNew
    rw [entries, if_neg notOld.2, if_neg notNew.2]
  simp only [flatten_singleton]
  intro cluster mem notMem
  exact absurd (mem_append_left _ mem) notMem

end NuttxRtos.Fat
