import NuttxRtos.Heap.Accounting

/-!
# Isolation of blocks

A successful allocation returns a payload inside one region that meets no other live payload, and
changes no byte of one. The rounded chunk size wraps for the last 23 values of `size_t`: `mm_malloc`
then looks for a chunk of 0 or 16 bytes, and hands out whatever it finds.
-/

namespace NuttxRtos.Heap

open Memory Word List Option Focus

/-- The `n` bytes at `p` lie between the guards of a region, in a chunk that is large enough, apart
from the payloads of the blocks in `others`, and those kept their bytes. -/
structure Isolated (h h' : MmHeap) (others : List ℕ) (p n : ℕ) : Prop where
  inside : ∃ span ∈ h.spans, span.1 + 8 ≤ p ∧ p + n ≤ span.2
  large : n + 8 ≤ size h'.mem (p - 8)
  disjoint : ∀ q ∈ others, p + n ≤ q ∨ q + (size h.mem (q - 8) - 8) ≤ p
  unchanged : ∀ q ∈ others, ∀ i < size h.mem (q - 8) - 8, h'.mem (q + i) = h.mem (q + i)

def Safe (h : MmHeap) (others : List ℕ) (n : ℕ) (call : Option (MmHeap × ℕ)) : Prop :=
  ∃ h' p, call = some (h', p) ∧ (p ≠ 0 → Isolated h h' others p n)

/-- No chunk is free, and none will be when the delay list is drained. -/
def Full (rs : List Region) (delayed : List ℕ) : Prop :=
  delayed = [] ∧ ∀ x s, ¬ At rs x (.free s)

variable {h h' : MmHeap} {rs rs' : List Region} {live delayed delayed' others : List ℕ} {n : ℕ}

/-! ## Requests that fit -/

section

variable (rep : Rep h rs live delayed)
include rep

theorem Step.isolated (sub : others ⊆ live)
    (step : Step h rs h' rs' others) {x s : ℕ} {g : ℕ → UInt8}
    (rep' : Rep h' rs' ((x + 8) :: others) delayed') (hx : At rs' x (.used s g))
    (large : n + 8 ≤ s) : Isolated h h' others (x + 8) n := by
  have header : ∀ {q}, q ∈ others → ∃ b ∈ Blocks rs, q = b.1 + 8 ∧ b ∈ Blocks rs' ∧
      size h.mem (q - 8) = b.2.size := by
    intro q hq
    obtain ⟨y, t, f, rfl, hy⟩ := rep.block (mem_append_left _ (sub hq))
    obtain ⟨k, header⟩ := rep.tiled.flux.header hy
    exact ⟨(y, .used t f), ⟨hy, by simp⟩, rfl, step.kept _ ⟨hy, by simp⟩ hq,
      by rw [Nat.add_sub_cancel]; exact header.sizeWord⟩
  refine ⟨?_, ?_, fun q hq => ?_, fun q hq i hi => ?_⟩
  · obtain ⟨r', hr', low, high, -⟩ := rep'.tiled.lay.bounds hx
    have span : r'.span ∈ rs.map Region.span := step.spans ▸ mem_map_of_mem hr'
    obtain ⟨r, hr, e⟩ := mem_map.1 span
    obtain ⟨base, stop⟩ := Prod.mk.inj e
    refine ⟨(r.base, r.last), by rw [rep.spans]; exact mem_map.2 ⟨r, hr, rfl⟩, ?_⟩
    simp only [Region.stop, Region.last] at *
    omega
  · obtain ⟨k, header⟩ := rep'.tiled.flux.header hx
    rw [Nat.add_sub_cancel, header.sizeWord]
    exact large
  · obtain ⟨b, -, rfl, hb, size⟩ := header hq
    have ne : x ≠ b.1 := fun e => (nodup_cons.1 rep'.nodup).1 (by simp [e, hq])
    rcases rep'.tiled.lay.chunks_apart hx hb.1 with e | far
    · exact absurd (congrArg Prod.fst e) ne
    · simp only at far
      omega
  obtain ⟨b, hb, rfl, hb', size⟩ := header hq
  rw [size] at hi
  exact rep.tiled.payload_eq rep'.tiled hb hb' hi

theorem mmMalloc_safe (fits : n + 23 < 2 ^ 32) : Safe h live n (mmMalloc h n) := by
  obtain ⟨h', ret, rs', run, step, -, ⟨rfl, -⟩ | ⟨x, g, rfl, -, hx, rep', -⟩⟩ :=
    mmMalloc_spec rep fits
  · exact ⟨h', 0, run, by simp⟩
  have := chunkFor_bounds n
  exact ⟨h', x + 8, run, fun _ =>
    step.isolated rep (List.Subset.refl _) rep' hx (by omega)⟩

theorem mmCalloc_safe {elem : ℕ} (fits : n * elem + 23 < 2 ^ 32 ∨ 2 ^ 32 ≤ n * elem) :
    Safe h live (n * elem) (mmCalloc h n elem) := by
  obtain ⟨h', ret, rs', delayed', run, step, ⟨rfl, -⟩ | ⟨x, g, rfl, -, hx, -, rep'⟩⟩ :=
    mmCalloc_spec rep fits
  · exact ⟨h', 0, run, by simp⟩
  have := chunkFor_bounds (n * elem)
  exact ⟨h', x + 8, run, fun _ =>
    step.isolated rep (List.Subset.refl _) rep' hx (by omega)⟩

theorem mmMemalign_safe (co : Coalesced rs) {j : ℕ}
    (fits : MemalignFits (2 ^ j) n) : Safe h live n (mmMemalign h (2 ^ j) n) := by
  obtain ⟨h', ret, rs', run, step, ⟨rfl, -⟩ | ⟨x, s, g, rfl, -, hx, large, rep', -⟩⟩ :=
    mmMemalign_spec rep fits
  · exact ⟨h', 0, run, by simp⟩
  · exact ⟨h', x + 8, run, fun _ =>
      (step co).isolated rep (List.Subset.refl _) rep' hx large⟩

theorem mmRealloc_safe {p : ℕ} (hp : p ∈ live)
    (fits : n + 23 < 2 ^ 32) : Safe h (live.erase p) n (mmRealloc h p n) := by
  have ne := (rep.addr (mem_append_left _ hp)).1.ne'
  by_cases zero : n = 0
  · subst zero
    obtain ⟨h', rs', run, -⟩ := mmFree_spec rep hp
    exact ⟨h', 0, by simp [mmRealloc, ne, run], by simp⟩
  obtain ⟨h', ret, rs', delayed', run, step, ⟨rfl, -⟩ | ⟨x, s, g, rfl, hx, large, rep', -⟩⟩ :=
    mmRealloc_spec rep hp (by omega) fits
  · exact ⟨h', 0, run, by simp⟩
  · exact ⟨h', x + 8, run, fun _ => step.isolated rep erase_subset rep' hx large⟩

/-! ## Requests that wrap -/

theorem not_safe (huge : 2 ^ 31 ≤ n) {call : Option (MmHeap × ℕ)}
    (returns : ∃ h' p, call = some (h', p) ∧ p ≠ 0) : ¬ Safe h others n call := by
  rintro ⟨h', p, run, safe⟩
  obtain ⟨h'', p', run', ne⟩ := returns
  obtain ⟨rfl, rfl⟩ := Prod.mk.inj (Option.some.inj (run.symm.trans run'))
  obtain ⟨span, mem, low, high⟩ := (safe ne).inside
  rw [rep.spans] at mem
  obtain ⟨r, hr, rfl⟩ := mem_map.1 mem
  have := (rep.tiled.lay.ok r hr).tagged
  simp only [Region.last] at high low
  omega

end

variable {node nodelist p : ℕ} {m : Memory}

theorem mmAddfreechunk_zero (nodelist : ℕ) (zero : size m node = 0) :
    ∃ m', mmAddfreechunk nodelist m node = some m' := by
  obtain ⟨k, fuel⟩ := exists_walkFuel
  simp [mmAddfreechunk, zero, fuel, addfreechunkLoop]

/-- Allocating no bytes from a node: a node of at least 16 bytes is split and listed again. -/
theorem mallocNode_zero (addr : node + 16 < 2 ^ 32)
    (small : size (freenode.unlink m node) node < 2 ^ 31) :
    ∃ m', mallocNode nodelist m node 0 = some (m', node + 8) := by
  simp only [mallocNode, add32_eq (show node + 0 < 2 ^ 32 by omega), Nat.add_zero,
    sub32_eq (Nat.zero_le (size (freenode.unlink m node) node)) (by omega), Nat.sub_zero,
    add32_allocnode (show node + 8 < 2 ^ 32 by omega), bind_eq_bind]
  split_ifs with large
  · have next : add32 node (size (freenode.unlink m node) node) + 8 ≤ node ∨
        node ≤ add32 node (size (freenode.unlink m node) node) := by
      unfold add32
      omega
    have zero (m' : Memory) (v : ℕ) : size (updatePreceding (setSize m' node 0)
        (add32 node (size (freenode.unlink m node) node)) v) node = 0 :=
      (size_updatePreceding next).trans (size_setSize_same (by decide))
    obtain ⟨m', run⟩ := mmAddfreechunk_zero nodelist (zero _ _)
    rw [run]
    exact ⟨_, rfl⟩
  · exact ⟨_, rfl⟩

/-- What `mm_malloc` finds when it looks for a chunk of no bytes: the node behind the head of the
first bucket, whichever it is. -/
theorem mallocSection_zero (tiled : Tiled nodelist m rs) :
    ∃ m' p, mallocSection nodelist m 0 = some (m', p) ∧ p ≠ 0 := by
  obtain ⟨lay, flux⟩ := tiled
  obtain ⟨B, ls⟩ := flux.listed
  -- the chain starts with the head of the first bucket and has a second node
  obtain ⟨node, rest, split⟩ : ∃ node rest,
      (B 0).map Prod.fst ++ chainAfter nodelist B 0 = node :: rest := by
    have second : bucketHead nodelist 1 ∈ chainAfter nodelist B 0 :=
      mem_flatMap.2 ⟨1, by decide, mem_cons_self⟩
    exact exists_cons_of_ne_nil (ne_nil_of_mem (mem_append_right _ second))
  have chain_eq : chain nodelist B = bucketHead nodelist 0 :: node :: rest := by
    rw [chain_split (by decide : 0 < 19), split]
    rfl
  have links := ls.links
  have far := ls.apart lay
  have linkable : ∀ y ∈ bucketHead nodelist 0 :: node :: rest, Linkable nodelist rs y :=
    fun y hy => ls.linkable (chain_eq ▸ hy)
  rw [chain_eq] at links far
  have here := linkable node (by simp)
  have addr := here.addr lay
  have same : SameOff (freenode.LinkBytes ([] ++ bucketHead nodelist 0 :: rest)) m
      (freenode.unlink m node) :=
    LinkFields.unlink_sameOff links ((pairwise_cons.1 far).1 node (by simp))
  have size_eq : size (freenode.unlink m node) node = size m node := by
    refine load32_sameOff same fun i hi => ?_
    rintro ⟨y, hy, hb⟩
    have apart : freenode.Apart y node := by
      rcases mem_cons.1 hy with rfl | hy
      · exact (pairwise_cons.1 far).1 node (by simp)
      · exact ((pairwise_cons.1 (pairwise_cons.1 far).2).1 y hy).symm
    simp only [freenode, LinkFields.Apart] at hb apart
    omega
  have small : size m node < 2 ^ 31 := by
    rcases here with ⟨i, hi, rfl⟩ | ⟨s, hs⟩
    · rw [ls.heads i hi]
      decide
    obtain ⟨q, header⟩ := flux.header hs
    rw [header.sizeWord]
    exact (lay.chunk_bounds hs).2.2.2.1
  have first : freenode.next m (bucketHead nodelist 0) = node := links.next_eq
  obtain ⟨k, fuel⟩ := exists_walkFuel
  have found : mallocLoop m 0 walkFuel (freenode.next m (bucketHead nodelist 0)) = some node := by
    rw [first, fuel, mallocLoop, if_neg (by omega)]
  have ndx : (if mmMaxChunk ≤ 0 then mmNnodes - 1 else mmSize2ndx 0) = 0 := by decide
  obtain ⟨m', run⟩ : ∃ m', mallocNode nodelist m node 0 = some (m', node + 8) :=
    mallocNode_zero (by omega) (size_eq.trans_lt small)
  refine ⟨m', node + 8, ?_, by omega⟩
  rw [mallocSection, ndx, found]
  simp only [bind_eq_bind, bind_some]
  rw [if_pos (by omega), run]

theorem wrapped_size (lt : n < 2 ^ 32) (wraps : 2 ^ 32 ≤ n + 23) :
    mmAlignUp (add32 n sizeofMmAllocnode) = if 2 ^ 32 < n + 8 then 16 else 0 := by
  have last : ∀ k < 23, mmAlignUp (add32 (2 ^ 32 - 23 + k) sizeofMmAllocnode) =
      if 2 ^ 32 < 2 ^ 32 - 23 + k + 8 then 16 else 0 := by
    decide +kernel
  have := last (n - (2 ^ 32 - 23)) (by omega)
  rwa [show 2 ^ 32 - 23 + (n - (2 ^ 32 - 23)) = n by omega] at this

theorem exists_placed {a y : ℕ} {l : List Chunk} (low : a ≤ y) (high : y < a + extent l) :
    ∃ x c, (x, c) ∈ placed a l ∧ x ≤ y ∧ y < x + c.size := by
  induction l generalizing a with
  | nil => simp at high; omega
  | cons c l ih =>
    by_cases here : y < a + c.size
    · exact ⟨a, c, by simp, low, here⟩
    rw [extent_cons] at high
    obtain ⟨x, d, hx, bounds⟩ := ih (Nat.le_of_not_lt here) (by omega)
    exact ⟨x, d, by simp [hx], bounds⟩

section

variable (rep : Rep h rs live delayed)
include rep

/-- Draining a delay list leaves a free chunk: where the first delayed block was, there is no live
block. -/
theorem drained_free (rep' : Rep h' rs' live [])
    (step : Step h rs h' rs' live) (some : delayed ≠ []) : ∃ x s, At rs' x (.free s) := by
  obtain ⟨q, hq⟩ := exists_mem_of_ne_nil _ some
  obtain ⟨y, t, f, rfl, hy⟩ := rep.block (mem_append_right _ hq)
  obtain ⟨r, hr, low, high, -, large, -⟩ := rep.tiled.lay.bounds hy
  have span : r.span ∈ rs'.map Region.span := step.spans ▸ mem_map_of_mem hr
  obtain ⟨r', hr', e⟩ := mem_map.1 span
  obtain ⟨base, stop⟩ := Prod.mk.inj e
  obtain ⟨x, c, hx, bounds⟩ := exists_placed (a := r'.base + 8) (y := y) (l := r'.mids)
    (by simp only [Region.stop] at *; omega) (by simp only [Region.stop] at *; omega)
  have at' : At rs' x c := ⟨r', hr', hx⟩
  rcases c with ⟨s, _ | g⟩
  · exact ⟨x, s, at'⟩
  -- a block of `rs'` is live, so it was there before, where it would overlap the delayed one
  exfalso
  have live' : x + 8 ∈ live := by
    simpa using (rep'.owned (x + 8)).2 ⟨(x, .used s g), ⟨at', by simp⟩, rfl⟩
  obtain ⟨x', s', f', e, old⟩ := rep.block (mem_append_left _ live')
  obtain rfl : x = x' := by omega
  have kept := step.kept (x, .used s' f') ⟨old, by simp⟩ live'
  have same := rep'.tiled.lay.at_unique at' kept.1
  obtain ⟨rfl, -⟩ := Chunk.mk.inj same
  rcases rep.tiled.lay.chunks_apart old hy with e | far
  · obtain rfl : x = y := congrArg Prod.fst e
    exact disjoint_of_nodup_append rep.nodup live' hq
  · simp only at far bounds large
    omega

theorem mmFreeDelaylist_free :
    ∃ h' rs', mmFreeDelaylist h = some h' ∧ Rep h' rs' live [] ∧
      (¬ Full rs delayed → ∃ x s, At rs' x (.free s)) := by
  by_cases empty : delayed = []
  · subst empty
    exact ⟨h, rs, rep.drain_nil, rep, fun room => by simpa [Full] using room⟩
  · obtain ⟨h', rs', drain, rep', step⟩ := mmFreeDelaylist_spec rep
    exact ⟨h', rs', drain, rep', fun _ => drained_free rep rep' step empty⟩

theorem mmMalloc_wraps (lt : n < 2 ^ 32) (wraps : 2 ^ 32 ≤ n + 23)
    (room : ¬ (2 ^ 32 < n + 8 ∧ Full rs delayed)) :
    ∃ h' p, mmMalloc h n = some (h', p) ∧ p ≠ 0 := by
  obtain ⟨h₁, rs₁, drain, rep₁, free⟩ := mmFreeDelaylist_free rep
  suffices found : ∃ m' p,
    mallocSection h₁.nodelist h₁.mem (mmAlignUp (add32 n sizeofMmAllocnode)) =
      some (m', p) ∧ p ≠ 0 by
    obtain ⟨m', p, run, ne⟩ := found
    exact ⟨{ h₁ with mem := m' }, p, mmMalloc_eq drain (by omega) run, ne⟩
  rw [wrapped_size lt wraps]
  split_ifs with high
  · obtain ⟨m', p, run, ⟨-, -, none⟩ | ⟨x, -, -, rfl, -⟩⟩ :=
      mallocSection_spec rep₁.tiled (by decide : 16 ≤ 16) (by decide)
    · obtain ⟨x, s, hx⟩ := free fun full => room ⟨high, full⟩
      have size : 16 ≤ s := (rep₁.tiled.lay.chunk_bounds hx).2.2.1
      exact absurd (none x s hx) (by omega)
    · exact ⟨m', x + 8, run, by omega⟩
  · exact mallocSection_zero rep₁.tiled

theorem mmMalloc_full (full : Full rs delayed) (lt : n < 2 ^ 32)
    (high : 2 ^ 32 < n + 8) : ∃ h', mmMalloc h n = some (h', 0) := by
  obtain ⟨rfl, none⟩ := full
  obtain ⟨m', p, run, ⟨rfl, -, -⟩ | ⟨x, -, -, -, ⟨s, hs, -⟩, -⟩⟩ :=
    mallocSection_spec rep.tiled (by decide : 16 ≤ 16) (by decide)
  · refine ⟨{ h with mem := m' }, mmMalloc_eq rep.drain_nil (by omega) ?_⟩
    rwa [wrapped_size lt (by omega), if_pos high]
  · exact absurd hs (none x s)

/-- `mm_malloc` keeps its promise for requests that fit, and when a full heap stops it. -/
theorem mmMalloc_safe_iff (lt : n < 2 ^ 32) :
    Safe h live n (mmMalloc h n) ↔ n + 23 < 2 ^ 32 ∨ 2 ^ 32 < n + 8 ∧ Full rs delayed := by
  constructor
  · intro safe
    by_contra unfit
    obtain ⟨wraps, room⟩ := not_or.1 unfit
    exact not_safe rep (by omega) (mmMalloc_wraps rep lt (by omega) room) safe
  rintro (fits | ⟨high, full⟩)
  · exact mmMalloc_safe rep fits
  · obtain ⟨h', run⟩ := mmMalloc_full rep full lt high
    exact ⟨h', 0, run, by simp⟩

end

theorem mmZalloc_returns (run : ∃ h' p, mmMalloc h n = some (h', p) ∧ p ≠ 0) :
    ∃ h' p, mmZalloc h n = some (h', p) ∧ p ≠ 0 := by
  obtain ⟨h', p, run, ne⟩ := run
  exact ⟨{ h' with mem := memset h'.mem p 0 n }, p, by simp [mmZalloc, run, ne], ne⟩

/-- `mm_calloc` catches a product that overflows, and then depends on `mm_malloc`. -/
theorem mmCalloc_safe_iff (rep : Rep h rs live delayed) (elem : ℕ) :
    Safe h live (n * elem) (mmCalloc h n elem) ↔ n * elem + 23 < 2 ^ 32 ∨
      2 ^ 32 < n * elem + 8 ∧ Full rs delayed ∨ 2 ^ 32 ≤ n * elem := by
  constructor
  · intro safe
    by_contra unfit
    simp only [not_or] at unfit
    obtain ⟨wraps, room, small⟩ := unfit
    have returns := mmZalloc_returns (mmMalloc_wraps rep (by omega) (by omega) room)
    rw [mmCalloc_eq, if_pos (by omega)] at safe
    exact not_safe rep (by omega) returns safe
  rintro (fits | ⟨high, full⟩ | large)
  · exact mmCalloc_safe rep (.inl fits)
  · by_cases large : 2 ^ 32 ≤ n * elem
    · exact mmCalloc_safe rep (.inr large)
    obtain ⟨h', run⟩ := mmMalloc_full rep full (Nat.lt_of_not_le large) high
    refine ⟨h', 0, ?_, by simp⟩
    rw [mmCalloc_eq, if_pos (by omega), mmZalloc, run]
    rfl
  · exact mmCalloc_safe rep (.inr large)

theorem mmShrinkchunk_zero {s : ℕ} {F : Focus} {f : ℕ → UInt8}
    (tiled : Tiled nodelist m (F.plug [.used s f])) :
    ∃ m', mmShrinkchunk nodelist m F.lo 0 = some m' := by
  obtain ⟨lay, flux⟩ := tiled
  have bounds := bounds₁ lay
  have head := flux.window.1.sizeWord
  have next := flux.next₁
  simp only at bounds next head
  simp only [mmShrinkchunk, head, add32_eq (show F.lo + s < 2 ^ 32 by omega),
    add32_eq (show F.lo + 0 < 2 ^ 32 by omega), add_zero, next.sizeWord]
  split_ifs with free large
  · refine mmAddfreechunk_zero nodelist
      ((size_updatePreceding ?_).trans (size_setSize_same (by decide)))
    have sum := (sides_bounds lay rfl rfl).2.2
    rw [if_pos ((next.free_iff (by omega)).1 free)] at sum
    unfold add32
    omega
  · refine mmAddfreechunk_zero nodelist
      ((load32_store32_off _ ?_).trans (size_setSize_same (by decide)))
    omega
  · exact ⟨m, rfl⟩

/-- A request that wraps makes `mm_realloc` shrink the block and return it. -/
theorem mmRealloc_wraps (rep : Rep h rs live delayed) (hp : p ∈ live) (lt : n < 2 ^ 32)
    (wraps : 2 ^ 32 ≤ n + 23) : ∃ h' q, mmRealloc h p n = some (h', q) ∧ q ≠ 0 := by
  obtain ⟨x, s, f, rfl, hx⟩ := rep.block (mem_append_left _ hp)
  obtain ⟨F, rfl, rfl⟩ := exists_plug hx
  have bounds := bounds₁ rep.tiled.lay
  have head : size h.mem F.lo = s := rep.tiled.flux.window.1.sizeWord
  simp only at bounds
  have shrink : ∀ v, v = 0 ∨ v = 16 →
      ∃ m', (if v < s then mmShrinkchunk h.nodelist h.mem F.lo v else some h.mem) = some m' := by
    intro v hv
    split_ifs with less
    · rcases hv with rfl | rfl
      · exact mmShrinkchunk_zero rep.tiled
      · obtain ⟨m', -, run, -⟩ := mmShrinkchunk_spec rep.tiled (by decide) (by decide) less
        exact ⟨m', run⟩
    · exact ⟨h.mem, rfl⟩
  have value : (if 2 ^ 32 < n + 8 then 16 else 0) = 0 ∨
    (if 2 ^ 32 < n + 8 then 16 else 0) = 16 := by
    split_ifs <;> simp
  obtain ⟨m', run⟩ := shrink _ value
  refine ⟨{ h with mem := m' }, F.lo + 8, mmRealloc_done (by omega) (by omega) ?_, by omega⟩
  rw [wrapped_size lt wraps]
  simp only [reallocSection, sub32_allocnode (show F.lo + 8 < 2 ^ 32 by omega), head]
  rw [if_pos (by omega), run]
  rfl

/-- The allocation calls return null or an isolated block, if the request fits, or the heap is full,
or the product of `mm_calloc` overflows; `mm_memalign` with an alignment above the granule, if none
of its sums wraps. -/
theorem allocations_isolated (rep : Rep h rs live delayed) (co : Coalesced rs) (lt : n < 2 ^ 32) :
    (Safe h live n (mmMalloc h n) ↔ n + 23 < 2 ^ 32 ∨ 2 ^ 32 < n + 8 ∧ Full rs delayed) ∧
    (Safe h live n (mmRealloc h 0 n) ↔ n + 23 < 2 ^ 32 ∨ 2 ^ 32 < n + 8 ∧ Full rs delayed) ∧
    (∀ elem, Safe h live (n * elem) (mmCalloc h n elem) ↔ n * elem + 23 < 2 ^ 32 ∨
      2 ^ 32 < n * elem + 8 ∧ Full rs delayed ∨ 2 ^ 32 ≤ n * elem) ∧
    (∀ p ∈ live, Safe h (live.erase p) n (mmRealloc h p n) ↔ n + 23 < 2 ^ 32) ∧
    (∀ j, 2 ^ j ≤ 16 → (Safe h live n (mmMemalign h (2 ^ j) n) ↔
      n + 23 < 2 ^ 32 ∨ 2 ^ 32 < n + 8 ∧ Full rs delayed)) ∧
    ∀ j, MemalignFits (2 ^ j) n → Safe h live n (mmMemalign h (2 ^ j) n) := by
  refine ⟨mmMalloc_safe_iff rep lt, ?_, fun elem => mmCalloc_safe_iff rep elem,
    fun p hp => ⟨fun safe => ?_, mmRealloc_safe rep hp⟩, fun j granule => ?_,
    fun j fits => mmMemalign_safe rep co fits⟩
  · exact mmMalloc_safe_iff rep lt
  · by_contra unfit
    exact not_safe rep (by omega) (mmRealloc_wraps rep hp lt (by omega)) safe
  · rw [mmMemalign, if_pos (show 2 ^ j ≤ mmMinChunk from granule)]
    exact mmMalloc_safe_iff rep lt

theorem exists_rep : ∃ h rs delayed, Rep h rs [] delayed ∧ Coalesced rs := by
  obtain ⟨h, -, before⟩ := exists_init
  obtain ⟨rs, delayed, rep, co, -⟩ := before.inv le_rfl
  exact ⟨h, rs, delayed, rep, co⟩

/-- One block is live, and another one waits to be freed. -/
theorem allocations_isolated_malloc :
    ∃ h rs delayed, Rep h rs [4112] delayed ∧ Safe h [4112] 24 (mmMalloc h 24) := by
  obtain ⟨h, -, run⟩ := exists_twoBlocks
  obtain ⟨rs, delayed, rep, co, -⟩ := run.inv le_rfl
  exact ⟨h, rs, delayed, rep, (allocations_isolated rep co (by decide)).1.2 (.inl (by decide))⟩

/-- `mm_malloc (SIZE_MAX - 15)` looks for a chunk of no bytes and returns a pointer. -/
theorem huge_malloc_not_isolated : ¬ ∀ h rs live delayed n, Rep h rs live delayed →
    Coalesced rs → n < 2 ^ 32 → Safe h live n (mmMalloc h n) := by
  intro all
  obtain ⟨h, rs, delayed, rep, co⟩ := exists_rep
  have safe := all h rs [] delayed (2 ^ 32 - 16) rep co (by decide)
  rcases (mmMalloc_safe_iff rep (by decide)).1 safe with fits | ⟨high, -⟩
  · exact absurd fits (by decide)
  · exact absurd high (by decide)

end NuttxRtos.Heap
