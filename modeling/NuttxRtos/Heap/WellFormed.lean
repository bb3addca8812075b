import NuttxRtos.Heap.System

/-!
# The representation invariant, told on the memory

`WellFormed` speaks about the header words, the links and the bucket heads alone, as a heap checker
that walks the regions would. A heap that represents a coalesced tiling is well formed, so every
run keeps it as long as no region reaches 2 GiB.
-/

namespace NuttxRtos.Heap

open Memory Word List

/-- `MM_ALLOC_BIT` is set in the header of `node`. -/
def Marked (m : Memory) (node : ℕ) : Prop := preceding m node &&& mmAllocBit ≠ 0

/-- Two nodes that follow each other in a region. -/
structure Neighbours (m : Memory) (x y : ℕ) : Prop where
  tile : x < y ∧ y = x + size m x
  back : preceding m y &&& not32 mmAllocBit = size m x
  coalesced : Marked m x ∨ Marked m y

/-- The walk over a region by `node->size`, from its start guard to its end guard. -/
structure RegionWf (m : Memory) (start last : ℕ) (nodes : List ℕ) : Prop where
  first : nodes.head? = some start
  final : nodes.getLast? = some last
  walk : nodes.IsChain (Neighbours m)
  guards : Marked m start ∧ Marked m last

/-- The regions, walked as `regions`, and the `mm_nodelist` chain with the nodes `B`. -/
structure HeapWf (h : MmHeap) (regions : List (List ℕ)) (B : Buckets) : Prop where
  table : h.heapstart.length = h.heapend.length
  walks : List.Forall₂ (fun span nodes => RegionWf h.mem span.1 span.2 nodes) h.spans regions
  links : freenode.Links h.mem (chain h.nodelist B)
  nodup : (chain h.nodelist B).Nodup
  sizes : ∀ i, ∀ n ∈ B i, size h.mem n.1 = n.2
  sorted : ∀ i, (B i).Pairwise fun n n' => n.2 ≤ n'.2
  index : ∀ i, ∀ n ∈ B i, mmSize2ndx n.2 = i
  listed : ∀ x, (∃ i, ∃ n ∈ B i, n.1 = x) ↔ ∃ nodes ∈ regions, x ∈ nodes ∧ ¬ Marked h.mem x

def WellFormed (h : MmHeap) : Prop := ∃ regions B, HeapWf h regions B

variable {m : Memory} {rs : List Region} {nodelist : ℕ}

/-! ## Walking a tiling -/

def nodesOf (a : ℕ) (l : List Chunk) : List ℕ := (placed a l).map Prod.fst

variable {a p x : ℕ} {c : Chunk} {l : List Chunk} {r : Region}

theorem Header.marked_iff (h : Header m a p c) (hp : p < 2 ^ 31) :
    Marked m a ↔ c.data ≠ none := (h.free_iff hp).not

theorem Headers.marked_iff (h : Headers m a p l) (hp : p < 2 ^ 31)
    (sizes : ∀ c ∈ l, c.size < 2 ^ 31) (hx : (x, c) ∈ placed a l) : Marked m x ↔ c.data ≠ none := by
  induction l generalizing a p with
  | nil => simp at hx
  | cons d l ih =>
    rcases mem_cons.1 hx with e | hx
    · obtain ⟨rfl, rfl⟩ := Prod.mk.inj e
      exact h.1.marked_iff hp
    · exact ih h.2 (sizes d (by simp)) (fun e he => sizes e (mem_cons_of_mem _ he)) hx

theorem Headers.walk (h : Headers m a p l) (hp : p < 2 ^ 31)
    (sizes : ∀ c ∈ l, 0 < c.size ∧ c.size < 2 ^ 31) (spaced : Spaced l) :
    (nodesOf a l).IsChain (Neighbours m) := by
  induction l generalizing a p with
  | nil => exact .nil
  | cons c l ih =>
    cases l with
    | nil => exact .singleton _
    | cons d l =>
      obtain ⟨pos, small⟩ := sizes c (by simp)
      obtain ⟨near, spaced⟩ := isChain_cons_cons.1 spaced
      refine isChain_cons_cons.2 ⟨⟨?_, ?_, ?_⟩, ?_⟩
      · rw [h.1.sizeWord]
        omega
      · rw [h.1.sizeWord, h.2.1.precedingWord, tagged_and_not small]
      · rwa [h.1.marked_iff hp, h.2.1.marked_iff small]
      · exact ih h.2 small (fun e he => sizes e (mem_cons_of_mem _ he)) spaced

theorem walk_step {last : ℕ} {nodes : List ℕ} (first : nodes.head? = some x)
    (final : nodes.getLast? = some last) (walk : nodes.IsChain (Neighbours m)) (ne : x ≠ last) :
    Neighbours m x (x + size m x) ∧ ∃ rest : List ℕ, rest.head? = some (x + size m x) ∧
      rest.getLast? = some last ∧ rest.IsChain (Neighbours m) := by
  match nodes with
  | [] => simp at first
  | [y] => simp_all
  | y :: z :: rest =>
    obtain rfl : y = x := by simpa using first
    obtain ⟨near, walk⟩ := isChain_cons_cons.1 walk
    have next := near.tile.2
    exact ⟨next ▸ near, z :: rest, by simp [next], by simpa using final, walk⟩

theorem Spaced.chunks (spaced : Spaced r.mids) : Spaced r.chunks := by
  refine isChain_cons.2 ⟨fun c _ => .inl (by simp [guard]), ?_⟩
  refine isChain_append.2 ⟨spaced, .singleton _, fun c _ d hd => .inr ?_⟩
  obtain rfl : guard = d := by simpa using hd
  simp [guard]

theorem nodesOf_chunks (r : Region) :
    nodesOf r.base r.chunks = r.base :: (nodesOf (r.base + 8) r.mids ++ [r.last]) := by
  simp [nodesOf, Region.chunks, Region.last]

theorem Region.Ok.chunk_sizes (ok : r.Ok) : ∀ c ∈ r.chunks, 0 < c.size ∧ c.size < 2 ^ 31 := by
  intro c hc
  refine ⟨by have := ok.chunk_size hc; omega, ?_⟩
  simp only [Region.chunks, mem_cons, mem_append, not_mem_nil, or_false] at hc
  rcases hc with rfl | hc | rfl
  · decide
  · have tagged := ok.tagged
    obtain ⟨pre, post, split⟩ := append_of_mem hc
    simp only [split, extent_append, extent_cons] at tagged
    omega
  · decide

theorem Region.Ok.wf (ok : r.Ok) (headers : Headers m r.base 0 r.chunks) (spaced : Spaced r.mids) :
    RegionWf m r.base r.last (nodesOf r.base r.chunks) := by
  have mark : ∀ {x}, (x, guard) ∈ placed r.base r.chunks → Marked m x := fun hx =>
    (headers.marked_iff (by omega) (fun c hc => (ok.chunk_sizes c hc).2) hx).2 (by simp [guard])
  refine ⟨by simp [nodesOf_chunks], ?_, ?_, mark ?_, mark ?_⟩
  · rw [nodesOf_chunks, ← cons_append, getLast?_append]
    rfl
  · exact headers.walk (by omega) ok.chunk_sizes spaced.chunks
  · simp [Region.chunks]
  · simp [Region.chunks, Region.last]

/-! ## The heap -/

theorem Tiled.free_iff (tiled : Tiled nodelist m rs) (x : ℕ) :
    (∃ s, At rs x (.free s)) ↔
      ∃ nodes ∈ rs.map fun r => nodesOf r.base r.chunks, x ∈ nodes ∧ ¬ Marked m x := by
  have mark : ∀ r ∈ rs, ∀ x c, (x, c) ∈ placed r.base r.chunks → (Marked m x ↔ c.data ≠ none) :=
    fun r hr x c hx => (tiled.flux.headers r hr).marked_iff (by omega)
      (fun c hc => ((tiled.lay.ok r hr).chunk_sizes c hc).2) hx
  constructor
  · rintro ⟨s, r, hr, hx⟩
    have hx' : (x, Chunk.free s) ∈ placed r.base r.chunks := by simp [Region.chunks, hx]
    refine ⟨_, mem_map.2 ⟨r, hr, rfl⟩, mem_map.2 ⟨_, hx', rfl⟩, ?_⟩
    rw [mark r hr _ _ hx']
    simp
  rintro ⟨nodes, hn, hx, free⟩
  obtain ⟨r, hr, rfl⟩ := mem_map.1 hn
  obtain ⟨⟨x, s, d⟩, placed, rfl⟩ := mem_map.1 hx
  obtain rfl : d = none := by simpa [mark r hr _ _ placed] using free
  rcases chunk_cases hr placed with hx | ⟨e, -⟩
  · exact ⟨s, hx⟩
  · simp [guard] at e

theorem Rep.heapWf {h : MmHeap} {live delayed : List ℕ} (rep : Rep h rs live delayed)
    (co : Coalesced rs) {B : Buckets} (ls : Listed h.nodelist h.mem rs ∅ B) :
    HeapWf h (rs.map fun r => nodesOf r.base r.chunks) B := by
  refine ⟨?_, ?_, ls.links, ls.nodup, ?_, ls.sorted, ls.index, fun x => ?_⟩
  · simp [rep.starts, rep.ends]
  · rw [rep.spans, forall₂_map_left_iff, forall₂_map_right_iff, forall₂_same]
    exact fun r hr => (rep.tiled.lay.ok r hr).wf (rep.tiled.flux.headers r hr) (co r hr)
  · intro i n hn
    obtain ⟨q, hq⟩ := rep.tiled.flux.header (ls.node hn).1
    exact hq.sizeWord
  rw [← rep.tiled.free_iff]
  constructor
  · rintro ⟨i, n, hn, rfl⟩
    exact ⟨n.2, (ls.node hn).1⟩
  · rintro ⟨s, hx⟩
    exact ⟨_, (x, s), (ls.nodes x s).2 ⟨hx, by simp⟩, rfl⟩

/-- Every run of clients keeps the heap well formed, and every valid call returns. -/
theorem run_wellFormed {maxRegions : ℕ} {ops : List Op} {s : State}
    (run : Run (2 ^ 31) maxRegions ops s) : WellFormed s.heap ∧
      ∀ op, Valid (2 ^ 31) maxRegions s op → ∃ s', step maxRegions s op = some s' := by
  have inv := run.inv le_rfl
  refine ⟨?_, fun op valid => ?_⟩
  · obtain ⟨rs, delayed, rep, co, -⟩ := inv
    obtain ⟨B, ls⟩ := rep.tiled.flux.listed
    exact ⟨_, B, rep.heapWf co ls⟩
  · obtain ⟨s', run, -⟩ := step_inv le_rfl inv valid
    exact ⟨s', run⟩

theorem run_wellFormed_malloc : ∃ s, Run (2 ^ 31) 1 [.malloc 24] s ∧ WellFormed s.heap := by
  obtain ⟨h, -, before⟩ := exists_init
  have valid : Valid (2 ^ 31) 1 ⟨h, []⟩ (.malloc 24) := by simp [Valid]
  obtain ⟨s, run, -⟩ := step_inv le_rfl (before.inv le_rfl) valid
  have run : Run (2 ^ 31) 1 [.malloc 24] s := before.step valid run
  exact ⟨s, run, (run_wellFormed run).1⟩

/-- The size of a chunk of `2 ^ 31` bytes sets the mark in the `preceding` word of the end guard,
and is lost when the mark is taken off. -/
theorem large_region_not_wellFormed :
    ¬ ∀ maxRegions ops s, Run (2 ^ 32) maxRegions ops s → WellFormed s.heap := by
  intro all
  have words : (mmInitialize 1 (fun _ => 0) 256 4096 (2 ^ 31 + 16)).map (fun h =>
      (size h.mem 4096, size h.mem 4104, preceding h.mem (4104 + 2 ^ 31), h.spans)) =
      some (8, 2 ^ 31, 2 ^ 31, [(4096, 4104 + 2 ^ 31)]) := by
    decide +kernel
  obtain ⟨h, init, e⟩ := Option.map_eq_some_iff.1 words
  simp only [Prod.mk.injEq] at e
  obtain ⟨guard, node, last, spans⟩ := e
  have region : NewRegion (2 ^ 32) 256 [] 4096 (2 ^ 31 + 16) :=
    ⟨by decide, by decide, by decide, by simp, by decide⟩
  obtain ⟨regions, B, wf⟩ := all 1 [] _ (.init Nat.one_pos (by decide) (by decide) region init)
  have walks := wf.walks
  rw [spans] at walks
  obtain ⟨nodes, -, wf, -, -⟩ := forall₂_cons_left_iff.1 walks
  -- the walk visits the start guard, the chunk, and the end guard
  obtain ⟨-, nodes, first, final, walk⟩ := walk_step wf.first wf.final wf.walk (by decide)
  rw [show size _ 4096 = 8 from guard] at first
  obtain ⟨near, -⟩ := walk_step first final walk (by decide)
  have back := near.back
  rw [show size _ (4096 + 8) = 2 ^ 31 from node, show preceding _ (4096 + 8 + 2 ^ 31) = 2 ^ 31
    from last] at back
  exact absurd back (by decide)

/-- Once every block is freed, a request is granted when it fits a region. -/
theorem malloc_after_frees {regions n start last : ℕ} {ops : List Op} {s : State}
    (run : Run (2 ^ 31) regions ops s) (freed : s.live = [])
    (region : (start, last) ∈ s.heap.spans) (pos : 0 < n) (fits : n + 23 < 2 ^ 32)
    (room : start + 8 + chunkFor n ≤ last) : ∃ h p, mmMalloc s.heap n = some (h, p) ∧ p ≠ 0 := by
  obtain ⟨rs, delayed, rep, co, -⟩ := run.inv le_rfl
  obtain ⟨h, p, rs', call, step, -, ⟨-, rep', few, -⟩ | ⟨x, g, rfl, -⟩⟩ := mmMalloc_spec rep fits
  · rw [MmHeap.spans, rep.starts, rep.ends, ← bases_of_spans step.spans,
      ← lasts_of_spans step.spans, zip_map'] at region
    obtain ⟨⟨base, mids⟩, hr, e⟩ := mem_map.1 region
    have free : ∀ x c, (x, c) ∈ placed (base + 8) mids → c.data = none := by
      intro x c hx
      by_contra used
      simpa [freed] using (rep'.owned (x + 8)).2 ⟨(x, c), ⟨⟨_, hr, hx⟩, used⟩, rfl⟩
    have bounds := chunkFor_bounds n
    have spaced := step.coalesced co _ hr
    rcases mids with _ | ⟨⟨k, d⟩, _ | ⟨c, l⟩⟩
    · simp_all [Region.last]; omega
    · obtain rfl : d = none := free _ _ mem_cons_self
      have := few.resolve_left pos.ne' _ k ⟨_, hr, mem_cons_self⟩
      simp_all [Region.last]
      omega
    -- two free neighbours would have been merged
    · obtain used | used := (isChain_cons_cons.1 spaced).1
      · exact absurd (free _ _ mem_cons_self) used
      · exact absurd (free _ c (mem_cons_of_mem _ mem_cons_self)) used
  · exact ⟨h, _, call, by simp⟩

/-- Two blocks were allocated and freed, one of them by an interrupt handler. -/
theorem malloc_after_frees_both :
    ∃ s, Run (2 ^ 31) 1 [.malloc 24, .malloc 600, .free true 4144, .free false 4112] s ∧
      s.heap.delaylist = 4144 ∧ ∃ h p, mmMalloc s.heap 999 = some (h, p) ∧ p ≠ 0 := by
  obtain ⟨h, made, run⟩ := exists_twoBlocks
  have last : (twoBlocks.bind fun s => (step 1 s (.free false 4112)).map fun t =>
      (t.live, t.heap.spans, t.heap.delaylist)) = some ([], [(4096, 5112)], 4144) := by
    decide +kernel
  rw [made, Option.bind_some] at last
  simp only [Option.map_eq_some_iff, Prod.mk.injEq] at last
  obtain ⟨s, freed, none_left, spans, delayed⟩ := last
  have run := run.step (by simp [Valid]) freed
  have region : (4096, 5112) ∈ s.heap.spans := by simp [spans]
  exact ⟨s, run, delayed,
    malloc_after_frees run none_left region (by decide) (by decide) (by decide)⟩

end NuttxRtos.Heap
