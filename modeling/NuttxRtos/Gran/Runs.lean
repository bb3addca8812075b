import NuttxRtos.Gran.Search

/-!
# Runs of the granule allocator

The table of a granule heap that was reached by allocations and releases has exactly the bits of the
live allocations set.
-/

namespace NuttxRtos.Gran

open Word List

/-- The granule heap, and the pointers that clients hold with the sizes they asked for. -/
structure State where
  priv : GranS
  live : List (ℕ × ℕ)

inductive Op where
  | alloc (size : ℕ)
  | free (memory size : ℕ)

def step (s : State) : Op → State
  | .alloc size =>
    let (priv, memory) := granAlloc s.priv size
    ⟨priv, if memory = 0 then s.live else (memory, size) :: s.live⟩
  | .free memory size => ⟨granFree s.priv memory size, s.live.erase (memory, size)⟩

/-- What clients may ask for: sizes up to 32 granules, and releases of what they hold. -/
def Valid (s : State) : Op → Prop
  | .alloc size => Allowed s.priv size
  | .free memory size => (memory, size) ∈ s.live

/-- The memory given to `gran_initialize` lies in the address space and holds its aligned start. -/
structure GoodHeap (heapstart heapsize log2gran log2align : ℕ) : Prop where
  pos : 0 < heapstart
  fits : heapstart + heapsize < 2 ^ 32
  aligned : 2 ^ log2align ≤ heapsize + 1
  gran : log2gran < 32

inductive Run : State → Prop where
  | init {gat : ℕ → BitVec 32} {heapstart heapsize log2gran log2align : ℕ}
      (good : GoodHeap heapstart heapsize log2gran log2align) :
      Run ⟨granInitialize gat heapstart heapsize log2gran log2align, []⟩
  | step {s : State} {op : Op} (before : Run s) (valid : Valid s op) : Run (step s op)

/-! ## The invariant -/

def Covers (priv : GranS) (b : ℕ × ℕ) (j : ℕ) : Prop :=
  granNo priv b.1 ≤ j ∧ j < granNo priv b.1 + granules priv b.2

/-- A pointer to the first granule of an allocation inside the heap. -/
structure Block (priv : GranS) (b : ℕ × ℕ) : Prop where
  allowed : Allowed priv b.2
  addr : b.1 = priv.addr (granNo priv b.1)
  inside : granNo priv b.1 + granules priv b.2 ≤ priv.ngranules

structure Inv (s : State) : Prop where
  placed : Placed s.priv
  blocks : ∀ b ∈ s.live, Block s.priv b
  table : ∀ j < s.priv.ngranules, s.priv.bit j = true ↔ ∃ b ∈ s.live, Covers s.priv b j
  disjoint : s.live.Pairwise fun b b' => ∀ j, ¬ (Covers s.priv b j ∧ Covers s.priv b' j)

variable {s : State} {priv priv' : GranS}

theorem Changed.exists_gat {k n : ℕ} {value : Bool} (ch : Changed priv priv' k n value) :
    ∃ gat, priv' = { priv with gat := gat } := by
  obtain ⟨log2gran, ngranules, heapstart, gat⟩ := priv'
  obtain ⟨rfl, rfl, rfl, -⟩ := ch
  exact ⟨gat, rfl⟩

/-! ## The operations keep it -/

variable {gat : ℕ → BitVec 32} {size : ℕ} {b : ℕ × ℕ}

theorem granInitialize_inv {heapstart heapsize log2gran log2align : ℕ}
    (good : GoodHeap heapstart heapsize log2gran log2align) :
    Inv ⟨granInitialize gat heapstart heapsize log2gran log2align, []⟩ := by
  obtain ⟨pos, fits, aligned, gran⟩ := good
  have unit : 0 < 2 ^ log2align := Nat.two_pow_pos _
  have exponent : log2align ≤ 32 := by
    by_contra large
    have : 2 ^ 33 ≤ 2 ^ log2align := Nat.pow_le_pow_right (by decide) (by omega)
    omega
  have start : add32 heapstart (2 ^ log2align - 1) &&& not32 (2 ^ log2align - 1) =
      heapstart + (2 ^ log2align - 1) - (heapstart + (2 ^ log2align - 1)) % 2 ^ log2align := by
    rw [add32_eq (by omega), and_not32_mask (by omega) exponent]
  have bits : ∀ j < (granInitialize gat heapstart heapsize log2gran log2align).ngranules,
      (granInitialize gat heapstart heapsize log2gran log2align).bit j = false := by
    intro j hj
    simp only [granInitialize, GranS.bit] at hj ⊢
    have := Nat.mod_le ((sub32 (add32 heapstart heapsize) (add32 heapstart (2 ^ log2align - 1) &&&
      not32 (2 ^ log2align - 1)) &&& not32 (2 ^ log2gran - 1)) >>> log2gran) (2 ^ 16)
    rw [if_pos]
    · simp
    · rw [sizeofGat, Nat.shiftRight_eq_div_pow]
      omega
  refine ⟨⟨?_, ?_⟩, by simp, fun j hj => by simp [bits j hj], .nil⟩
  · simp only [granInitialize, start]
    omega
  simp only [granInitialize, start]
  rw [add32_eq fits, sub32_eq (by omega) fits, and_not32_mask (by omega) (by omega),
    Nat.shiftRight_eq_div_pow]
  have whole (bytes : ℕ) : (bytes - bytes % 2 ^ log2gran) / 2 ^ log2gran % 2 ^ 16 * 2 ^ log2gran ≤
      bytes :=
    (Nat.mul_le_mul_right _ (Nat.mod_le _ _)).trans
      ((Nat.div_mul_le_self _ _).trans (Nat.sub_le _ _))
  have := whole (heapstart + heapsize - (heapstart + (2 ^ log2align - 1) -
    (heapstart + (2 ^ log2align - 1)) % 2 ^ log2align))
  omega

theorem alloc_inv (inv : Inv s) (ok : Allowed s.priv size) : Inv (step s (.alloc size)) := by
  obtain ⟨placed, blocks, table, disjoint⟩ := inv
  simp only [step]
  rcases granAlloc_spec placed ok with ⟨k, free, -, addr, ch⟩ | ⟨-, fails⟩
  · have some : 0 < granules s.priv size := ok.count.2.1
    have hk : k < s.priv.ngranules := by
      have := free.1
      omega
    obtain ⟨at_k, no⟩ := placed.addr hk
    rw [← at_k] at addr
    have nonzero : (granAlloc s.priv size).2 ≠ 0 := by
      have := placed.pos
      omega
    rw [if_neg nonzero, addr]
    obtain ⟨gat, eq⟩ := ch.exists_gat
    have covers : ∀ j, Covers s.priv (s.priv.addr k, size) j ↔ k ≤ j ∧ j < k +
      granules s.priv size := by
      intro j
      rw [Covers, no]
    have bit := ch.bit
    rw [eq] at bit ⊢
    refine ⟨⟨placed.pos, placed.fits⟩, ?_, fun j hj => ?_, ?_⟩
    · intro b hb
      rcases mem_cons.1 hb with rfl | hb
      · have inside : granNo s.priv (s.priv.addr k) + granules s.priv size ≤ s.priv.ngranules := by
          rw [no]
          exact free.1
        exact ⟨ok, congrArg s.priv.addr no.symm, inside⟩
      · obtain ⟨allowed, addr, inside⟩ := blocks b hb
        exact ⟨allowed, addr, inside⟩
    · rw [bit]
      constructor
      · intro set
        split_ifs at set with run
        · exact ⟨_, mem_cons_self, (covers j).2 run⟩
        · obtain ⟨b, hb, cover⟩ := (table j hj).1 set
          exact ⟨b, mem_cons_of_mem _ hb, cover⟩
      rintro ⟨b, hb, cover⟩
      rcases mem_cons.1 hb with rfl | hb
      · rw [if_pos ((covers j).1 cover)]
      split_ifs
      · rfl
      · exact (table j hj).2 ⟨b, hb, cover⟩
    refine pairwise_cons.2 ⟨fun b hb j cover => ?_, disjoint⟩
    -- the granules of the new run were free, those of a live block are not
    obtain ⟨low, high⟩ := (covers j).1 cover.1
    have hj : j < s.priv.ngranules := by
      have := free.1
      omega
    have set := (table j hj).2 ⟨b, hb, cover.2⟩
    have clear := free.2 (j - k) (by omega)
    rw [show k + (j - k) = j by omega, set] at clear
    exact Bool.noConfusion clear
  · rw [fails]
    exact ⟨placed, blocks, table, disjoint⟩

theorem Block.lt (block : Block priv b) : granNo priv b.1 < priv.ngranules := by
  have := block.inside
  have := block.allowed.count.2.1
  omega

theorem free_inv (inv : Inv s) {memory : ℕ} (mem : (memory, size) ∈ s.live) :
    Inv (step s (.free memory size)) := by
  obtain ⟨placed, blocks, table, disjoint⟩ := inv
  have block := blocks _ mem
  have ch := granFree_spec placed block.lt block.allowed
  rw [← block.addr] at ch
  obtain ⟨gat, eq⟩ := ch.exists_gat
  have bit := ch.bit
  simp only [step]
  rw [eq] at bit ⊢
  have perm := perm_cons_erase mem
  have apart := (perm.pairwise_iff fun {b b'} h j hj => h j hj.symm).1 disjoint
  obtain ⟨apart, disjoint'⟩ := pairwise_cons.1 apart
  refine ⟨⟨placed.pos, placed.fits⟩, fun b hb => ?_, fun j hj => ?_, disjoint'⟩
  · obtain ⟨allowed, addr, inside⟩ := blocks b (mem_of_mem_erase hb)
    exact ⟨allowed, addr, inside⟩
  rw [bit]
  constructor
  · intro set
    split_ifs at set with run
    obtain ⟨b, hb, cover⟩ := (table j hj).1 set
    rcases mem_cons.1 (perm.subset hb) with rfl | hb
    · exact absurd cover run
    · exact ⟨b, hb, cover⟩
  rintro ⟨b, hb, cover⟩
  have out : ¬ (granNo s.priv memory ≤ j ∧ j < granNo s.priv memory + granules s.priv size) :=
    fun run => apart b hb j ⟨run, cover⟩
  rw [if_neg out]
  exact (table j hj).2 ⟨b, mem_of_mem_erase hb, cover⟩

theorem Run.inv (run : Run s) : Inv s := by
  induction run with
  | init good => exact granInitialize_inv good
  | @step s op before valid ih =>
    cases op with
    | alloc size => exact alloc_inv ih valid
    | free memory size => exact free_inv ih valid

/-! ## What clients see -/

theorem le_granules (priv : GranS) (size : ℕ) : size ≤ granules priv size * 2 ^ priv.log2gran := by
  have pos : 0 < 2 ^ priv.log2gran := Nat.two_pow_pos _
  have whole := Nat.div_add_mod (size + (2 ^ priv.log2gran - 1)) (2 ^ priv.log2gran)
  rw [granules, mul_comm]
  omega

theorem Block.apart (placed : Placed priv) {b' : ℕ × ℕ} (block : Block priv b)
    (block' : Block priv b') (disjoint : ∀ j, ¬ (Covers priv b j ∧ Covers priv b' j)) :
    b.1 + b.2 ≤ b'.1 ∨ b'.1 + b'.2 ≤ b.1 := by
  have start : b.1 = priv.heapstart + granNo priv b.1 * 2 ^ priv.log2gran :=
    block.addr.trans (placed.addr block.lt).1
  have start' : b'.1 = priv.heapstart + granNo priv b'.1 * 2 ^ priv.log2gran :=
    block'.addr.trans (placed.addr block'.lt).1
  have bytes := le_granules priv b.2
  have bytes' := le_granules priv b'.2
  have some := block.allowed.count.2.1
  have some' := block'.allowed.count.2.1
  have ranges : granNo priv b.1 + granules priv b.2 ≤ granNo priv b'.1 ∨
      granNo priv b'.1 + granules priv b'.2 ≤ granNo priv b.1 := by
    have := disjoint (granNo priv b.1)
    have := disjoint (granNo priv b'.1)
    unfold Covers at *
    omega
  rcases ranges with before | before
  · have := Nat.mul_le_mul_right (2 ^ priv.log2gran) before
    rw [Nat.add_mul] at this
    omega
  have := Nat.mul_le_mul_right (2 ^ priv.log2gran) before
  rw [Nat.add_mul] at this
  omega

theorem granAlloc_congr (placed : Placed priv) (ok : Allowed priv size)
    (same : ∀ i < sizeofGat priv.ngranules, gat i = priv.gat i) :
    (granAlloc { priv with gat := gat } size).2 = (granAlloc priv size).2 ∧
      ∀ j < priv.ngranules, (granAlloc { priv with gat := gat } size).1.bit j =
        (granAlloc priv size).1.bit j := by
  have bits : ∀ j < priv.ngranules, GranS.bit { priv with gat := gat } j = priv.bit j := by
    intro j hj
    refine congrArg (fun word => word.getLsbD (j % 32)) (same (j / 32) ?_)
    rw [sizeofGat, Nat.shiftRight_eq_div_pow]
    omega
  have runs : ∀ k n, FreeRun { priv with gat := gat } k n ↔ FreeRun priv k n := by
    intro k n
    refine and_congr_right fun (inside : k + n ≤ priv.ngranules) => forall₂_congr fun i hi => ?_
    rw [bits (k + i) (by omega)]
  have placed' : Placed { priv with gat := gat } := ⟨placed.pos, placed.fits⟩
  have ok' : Allowed { priv with gat := gat } size := ok
  have count : granules { priv with gat := gat } size = granules priv size := rfl
  have spec := granAlloc_spec placed' ok'
  simp only [runs, count] at spec
  rcases granAlloc_spec placed ok with ⟨k, free, first, addr, ch⟩ | ⟨none, fails⟩
  · rcases spec with ⟨k', free', first', addr', ch'⟩ | ⟨none', -⟩
    · obtain rfl : k = k' := by
        by_contra ne
        rcases lt_or_gt_of_ne ne with lt | lt
        · exact first' k lt free
        · exact first k' lt free'
      refine ⟨addr'.trans addr.symm, fun j hj => ?_⟩
      rw [ch.bit, ch'.bit, bits j hj]
    · exact absurd free (none' k)
  rcases spec with ⟨k', free', -⟩ | ⟨-, fails'⟩
  · exact absurd free' (none k')
  · rw [fails, fails']
    exact ⟨rfl, bits⟩

/-- In every state of a granule heap: `gran_alloc` takes the lowest free run of granules and sets
its bits, or returns null; `gran_free` clears the bits of the allocation; live allocations do not
overlap, and the words behind the table do not matter. -/
theorem run_granules (run : Run s) :
    (∀ size, Allowed s.priv size → (∃ k, FreeRun s.priv k (granules s.priv size) ∧
        (∀ k' < k, ¬ FreeRun s.priv k' (granules s.priv size)) ∧
        (granAlloc s.priv size).2 = s.priv.heapstart + k * 2 ^ s.priv.log2gran ∧
        Changed s.priv (granAlloc s.priv size).1 k (granules s.priv size) true) ∨
      (∀ k, ¬ FreeRun s.priv k (granules s.priv size)) ∧ granAlloc s.priv size = (s.priv, 0)) ∧
    (∀ b ∈ s.live, b.1 = s.priv.heapstart + granNo s.priv b.1 * 2 ^ s.priv.log2gran ∧
      Changed s.priv (granFree s.priv b.1 b.2) (granNo s.priv b.1) (granules s.priv b.2) false) ∧
    (s.live.Pairwise fun b b' => b.1 + b.2 ≤ b'.1 ∨ b'.1 + b'.2 ≤ b.1) ∧
    ∀ size gat, Allowed s.priv size → (∀ i < sizeofGat s.priv.ngranules, gat i = s.priv.gat i) →
      (granAlloc { s.priv with gat := gat } size).2 = (granAlloc s.priv size).2 ∧
      ∀ j < s.priv.ngranules, (granAlloc { s.priv with gat := gat } size).1.bit j =
        (granAlloc s.priv size).1.bit j := by
  obtain ⟨placed, blocks, table, disjoint⟩ := run.inv
  refine ⟨fun size ok => granAlloc_spec placed ok, fun b hb => ?_, ?_,
    fun size gat ok same => granAlloc_congr placed ok same⟩
  · have block := blocks b hb
    have addr := (placed.addr block.lt).1
    have ch := granFree_spec placed block.lt block.allowed
    rw [← block.addr] at addr ch
    exact ⟨addr, ch⟩
  · exact disjoint.imp_of_mem fun hb hb' h => (blocks _ hb).apart placed (blocks _ hb') h

/-- A heap of 40 granules of 16 bytes: the run of 20 granules behind one of 20 crosses into the
second table entry. -/
theorem run_granules_crossing : ∃ s, Run s ∧ s.live = [(4096 + 320, 320), (4096, 320)] ∧
    s.live.Pairwise fun b b' => b.1 + b.2 ≤ b'.1 ∨ b'.1 + b'.2 ≤ b.1 := by
  have good : GoodHeap 4096 640 4 0 := ⟨by decide, by decide, by decide, by decide⟩
  have first : Run ⟨granInitialize (fun _ => 0x5a5a5a5a#32) 4096 640 4 0, []⟩ := .init good
  have second : Run (step _ (.alloc 320)) := first.step ⟨by decide, by decide +kernel⟩
  have third : Run (step _ (.alloc 320)) := second.step ⟨by decide, by decide +kernel⟩
  exact ⟨_, third, by decide +kernel, (run_granules third).2.2.1⟩

end NuttxRtos.Gran
