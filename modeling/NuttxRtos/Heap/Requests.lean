import NuttxRtos.Heap.Isolation

/-!
# What a request gets

`mm_realloc` keeps the contents of the block, `mm_memalign` cuts an aligned block out of a larger
one, and `mm_malloc` takes the smallest free chunk that is large enough. All three may begin by
freeing the blocks on the delay list, also when they return null.
-/

namespace NuttxRtos.Heap

open Memory Word List Option

variable {h h' : MmHeap} {rs rs' : List Region} {live live' delayed delayed' keep : List ℕ}
  {n x s j : ℕ} {f : ℕ → UInt8}

/-- The blocks in `keep` are still there, with their bytes. -/
def Kept (h : MmHeap) (rs : List Region) (h' : MmHeap) (rs' : List Region) (keep : List ℕ) : Prop :=
  ∀ y t g, At rs y (.used t g) → y + 8 ∈ keep →
    At rs' y (.used t g) ∧ ∀ i < t - 8, h'.mem (y + 8 + i) = h.mem (y + 8 + i)

theorem Step.keeps (step : Step h rs h' rs' keep) (rep : Rep h rs live delayed)
    (rep' : Rep h' rs' live' delayed') : Kept h rs h' rs' keep := by
  intro y t g hy mem
  have hy' := step.kept (y, .used t g) ⟨hy, by simp⟩ mem
  refine ⟨hy'.1, fun i hi => ?_⟩
  rw [rep.tiled.payload ⟨hy, by simp⟩ hi, rep'.tiled.payload hy' hi]

/-- `mm_realloc` of a live block. A null result leaves the heap as it is after its delayed blocks
were freed. -/
theorem realloc_keeps_data (rep : Rep h rs live delayed) (hp : x + 8 ∈ live)
    (hx : At rs x (.used s f)) (pos : 0 < n) (fits : n + 23 < 2 ^ 32) :
    ∃ h' q rs' delayed', mmRealloc h (x + 8) n = some (h', q) ∧
      Kept h rs h' rs' (live.erase (x + 8)) ∧
      (q = 0 ∧ Rep h' rs' live delayed' ∧ Kept h rs h' rs' live ∧
          mmFreeDelaylist h = some h' ∧ (delayed = [] → h' = h) ∨
        ∃ y t g, q = y + 8 ∧ At rs' y (.used t g) ∧ n + 8 ≤ t ∧
          Rep h' rs' (q :: live.erase (x + 8)) delayed' ∧
          (∀ i, i < s - 8 → i < n → h'.mem (q + i) = h.mem (x + 8 + i)) ∧
          (q ≠ x + 8 → x + 8 ∉ q :: live.erase (x + 8))) := by
  obtain ⟨h', q, rs', delayed', run, step, ⟨rfl, rep', step', drain⟩ | ⟨y, t, g, rfl, hy, large,
    rep', same⟩⟩ := mmRealloc_spec rep hp pos fits
  · refine ⟨h', 0, rs', delayed', run, step.keeps rep rep', .inl ⟨rfl, rep', step'.keeps rep rep',
      drain, ?_⟩⟩
    rintro rfl
    exact Option.some.inj (drain.symm.trans rep.drain_nil)
  refine ⟨h', y + 8, rs', delayed', run, step.keeps rep rep', .inr ⟨y, t, g, rfl, hy, large, rep',
    fun i hi hn => ?_, fun moved => ?_⟩⟩
  · rw [rep.tiled.payload ⟨hx, by simp⟩ hi, rep'.tiled.payload ⟨hy, by simp⟩ (by omega)]
    exact same x s f rfl hx i hi hn
  · have once := rep.nodup.of_append_left
    rw [mem_cons, not_or]
    exact ⟨moved.symm, once.not_mem_erase⟩

/-- The bytes of the free chunks of a region, or of its allocated ones. -/
def Region.bytes (r : Region) (free : Bool) : ℕ :=
  extent (r.mids.filter fun c => c.data.isNone == free)

theorem Region.bytes_add (r : Region) : r.bytes true + r.bytes false = extent r.mids := by
  unfold bytes
  induction r.mids with
  | nil => rfl
  | cons c l ih =>
    rw [extent_cons, ← ih]
    cases e : c.data
    · simp [e]
      omega
    · simp [e]
      omega

/-- `mm_memalign` of a request that does not wrap. Every region keeps its sum of free and
allocated bytes. -/
theorem memalign_aligned (rep : Rep h rs live delayed) (co : Coalesced rs)
    (fits : MemalignFits (2 ^ j) n) :
    ∃ h' q rs', mmMemalign h (2 ^ j) n = some (h', q) ∧
      rs'.map (fun r => r.bytes true + r.bytes false) =
        rs.map (fun r => r.bytes true + r.bytes false) ∧
      (q = 0 ∨ ∃ x s g, q = x + 8 ∧ q % 2 ^ j = 0 ∧ Rep h' rs' (q :: live) [] ∧
        At rs' x (.used s g) ∧ Carved h (2 ^ j) n rs' x s) := by
  obtain ⟨h', q, rs', run, step, result⟩ := mmMemalign_spec rep fits
  have extents (rs : List Region) : rs.map (fun r => r.bytes true + r.bytes false) =
      (rs.map Region.span).map fun span => span.2 - span.1 - 16 := by
    simp only [Region.bytes_add, List.map_map]
    refine List.map_congr_left fun r _ => ?_
    simp only [Function.comp, Region.span, Region.stop]
    omega
  refine ⟨h', q, rs', run, by rw [extents, (step co).spans, extents], ?_⟩
  rcases result with ⟨zero, -⟩ | ⟨x, s, g, rfl, aligned, hx, -, rep', carved⟩
  · exact .inl zero
  · exact .inr ⟨x, s, g, rfl, aligned, rep', hx, carved⟩

theorem malloc_best_fit (rep : Rep h rs live delayed) (pos : 0 < n) (fits : n + 23 < 2 ^ 32) :
    ∃ h₁ rs₁ h' q, mmFreeDelaylist h = some h₁ ∧ Rep h₁ rs₁ live [] ∧ (delayed = [] → h₁ = h) ∧
      mmMalloc h n = some (h', q) ∧ (q = 0 ↔ ∀ x s, At rs₁ x (.free s) → s < chunkFor n) ∧
      (q ≠ 0 → ∃ x s, q = x + 8 ∧ At rs₁ x (.free s) ∧ chunkFor n ≤ s ∧
        ∀ y t, At rs₁ y (.free t) → chunkFor n ≤ t → s ≤ t) := by
  have bounds := chunkFor_bounds n
  obtain ⟨h₁, rs₁, drain, rep₁, step₁⟩ := mmFreeDelaylist_spec rep
  obtain ⟨m', q, run, found⟩ := mallocSection_spec (a := chunkFor n) rep₁.tiled (by omega)
    (by omega)
  refine ⟨h₁, rs₁, { h₁ with mem := m' }, q, drain, rep₁, ?_,
    mmMalloc_eq drain pos (chunkFor_spec fits ▸ run), ?_⟩
  · rintro rfl
    exact Option.some.inj (drain.symm.trans rep.drain_nil)
  rcases found with ⟨rfl, -, none⟩ | ⟨x, -, -, rfl, ⟨s, hs, large, least⟩, -⟩
  · simpa using none
  · refine ⟨iff_of_false (by omega) fun none => ?_, fun _ => ⟨x, s, rfl, hs, large, least⟩⟩
    exact absurd (none x s hs) (by omega)

/-- A heap of 1 KiB with one live block, whose second block waits to be freed. -/
theorem exists_waiting : ∃ h rs delayed f, Rep h rs [4112] delayed ∧ Coalesced rs ∧
    At rs 4136 (.used 608 f) ∧ (∀ x s, At rs x (.free s) → s < 608) ∧
    (∃ h', mmMalloc h 600 = some (h', 4144)) ∧
    (∃ h', mmRealloc h 4112 (2 ^ 32 - 24) = some (h', 0) ∧ size h'.mem 4136 = 976) ∧
    ∃ h', mmMemalign h 16 8 = some (h', 4144) ∧ size h'.mem 4136 = 16 := by
  obtain ⟨h, made, run⟩ := exists_twoBlocks
  have calls : (twoBlocks.bind fun t => (mmMalloc t.heap 600).bind fun r =>
      (mmRealloc t.heap 4112 (2 ^ 32 - 24)).bind fun r' => (mmMemalign t.heap 16 8).map fun r'' =>
        (t.heap.spans,
          [t.heap.delaylist, size t.heap.mem 4136, r.2, r'.2, size r'.1.mem 4136, r''.2,
          size r''.1.mem 4136])) = some ([(4096, 5112)], [4144, 608, 4144, 0, 976, 4144, 16]) := by
    decide +kernel
  rw [made, bind_some] at calls
  simp only [bind_eq_some_iff, map_eq_some_iff, Prod.mk.injEq, List.cons.injEq, and_true] at calls
  obtain ⟨⟨h₁, p⟩, malloc, ⟨h₂, q⟩, realloc, ⟨h₃, r⟩, memalign, spans, delaylist, header, rfl, rfl,
    size, rfl, size'⟩ := calls
  obtain ⟨rs, delayed, rep, co, -⟩ := run.inv le_rfl
  have waiting : 4144 ∈ delayed := by
    have chain := rep.chain
    rw [delaylist] at chain
    cases delayed with
    | nil => simp [DelayChain] at chain
    | cons x l => simp [chain.1]
  obtain ⟨y, t, f, e, hy⟩ := rep.block (mem_append_right _ waiting)
  obtain rfl : y = 4136 := by omega
  obtain ⟨k, hk⟩ := rep.tiled.flux.header hy
  obtain rfl : t = 608 := hk.sizeWord.symm.trans header
  refine ⟨h, rs, delayed, f, rep, co, hy, fun x s hx => ?_, ⟨h₁, malloc⟩,
    ⟨h₂, realloc, size⟩, h₃, memalign, size'⟩
  obtain ⟨r, hr, low, high, -⟩ := rep.tiled.lay.bounds hx
  have span : (r.base, r.last) ∈ h.spans := rep.spans ▸ mem_map.2 ⟨r, hr, rfl⟩
  rw [spans, mem_singleton, Prod.mk.injEq] at span
  rcases rep.tiled.lay.chunks_apart hx hy with same | far
  · cases same
  · simp only [Region.stop, Region.last] at *
    omega

theorem realloc_keeps_data_shrunk : ∃ h rs delayed, Rep h rs [4112] delayed ∧
    ∃ h' q, mmRealloc h 4112 8 = some (h', q) := by
  obtain ⟨h, rs, delayed, f, rep, -⟩ := exists_waiting
  obtain ⟨x, s, f, e, hx⟩ := rep.block (mem_append_left _ (mem_singleton_self 4112))
  obtain ⟨h', q, -, -, run, -⟩ := realloc_keeps_data (x := x) rep (by simp [← e]) hx
    (by decide : 0 < 8) (by decide)
  exact ⟨h, rs, delayed, rep, h', q, e ▸ run⟩

/-- A null result with a block on the delay list: that block is merged with the chunk behind it. -/
theorem failed_realloc_merges : ¬ ∀ h rs live delayed p n h', Rep h rs live delayed → Coalesced rs →
    p ∈ live → 0 < n → n + 23 < 2 ^ 32 → mmRealloc h p n = some (h', 0) →
    ∀ x c, At rs x c → size h'.mem x = c.size := by
  intro all
  obtain ⟨h, rs, delayed, f, rep, co, hx, -, -, ⟨h', run, merged⟩, -⟩ := exists_waiting
  have same := all h rs _ delayed 4112 (2 ^ 32 - 24) h' rep co (mem_singleton_self _) (by decide)
    (by decide) run _ _ hx
  exact absurd (merged.symm.trans same) (by simp)

theorem memalign_aligned_page : ∃ h rs delayed, Rep h rs [] delayed ∧
    ∃ h' q, mmMemalign h (2 ^ 6) 24 = some (h', q) := by
  obtain ⟨h, rs, delayed, rep, co⟩ := exists_rep
  obtain ⟨h', q, -, run, -⟩ := memalign_aligned (n := 24) (j := 6) rep co (by simp [MemalignFits])
  exact ⟨h, rs, delayed, rep, h', q, run⟩

/-- `mm_memalign (16, 8)` takes a chunk of 16 bytes, header included. -/
theorem memalign_smaller_chunk : ¬ ∀ h rs live delayed j n h' q, Rep h rs live delayed →
    Coalesced rs → n + 2 * 2 ^ j + 8 < 2 ^ 32 → mmMemalign h (2 ^ j) n = some (h', q) → q ≠ 0 →
    mmAlignUp n + sizeofMmAllocnode ≤ size h'.mem (q - 8) := by
  intro all
  obtain ⟨h, rs, delayed, f, rep, co, -, -, -, -, h', run, size⟩ := exists_waiting
  have large := all h rs _ delayed 4 8 h' _ rep co (by decide) run (by decide)
  exact absurd (large.trans_eq size) (by decide)

theorem malloc_takes_waiting : ¬ ∀ h rs live delayed n h' q, Rep h rs live delayed → Coalesced rs →
    0 < n → n + 23 < 2 ^ 32 → mmMalloc h n = some (h', q) →
    (q = 0 ↔ ∀ x s, At rs x (.free s) → s < chunkFor n) := by
  intro all
  obtain ⟨h, rs, delayed, f, rep, co, -, small, ⟨h', run⟩, -⟩ := exists_waiting
  have null := (all h rs _ delayed 600 h' _ rep co (by decide) (by decide) run).2 small
  exact absurd null (by decide)

/-- Of two free chunks the smaller one is taken. -/
theorem malloc_best_fit_gap : ∃ h rs live h' h'', Rep h rs live [] ∧
    mmMalloc h 24 = some (h', 4112) ∧ mmMalloc h 600 = some (h'', 4176) ∧ At rs 4104 (.free 32) ∧
      ∀ y t, At rs y (.free t) → chunkFor 24 ≤ t → 32 ≤ t := by
  obtain ⟨h, made, run⟩ := exists_twoBlocks
  have calls : (twoBlocks.bind fun s => (step 1 s (.malloc 24)).bind fun s' =>
      (step 1 s' (.free false 4112)).bind fun t => (mmMalloc t.heap 24).bind fun r =>
      (mmMalloc t.heap 600).map fun r' =>
        (s'.live, [t.heap.delaylist, size t.heap.mem 4104, r.2, r'.2])) =
      some ([4144, 4112], [0, 32, 4112, 4176]) := by
    decide +kernel
  rw [made, bind_some] at calls
  simp only [bind_eq_some_iff, map_eq_some_iff, Prod.mk.injEq, List.cons.injEq, and_true] at calls
  obtain ⟨s, run₁, ⟨h₁, live⟩, run₂, ⟨h', p⟩, small, ⟨h'', q⟩, large, owned, delaylist, header, rfl,
    rfl⟩ := calls
  have run := (run.step (by simp [Valid]) run₁).step (by simp [Valid, owned]) run₂
  obtain ⟨rs, delayed, rep, -⟩ := run.inv le_rfl
  obtain rfl : delayed = [] := by
    have chain := rep.chain
    cases delayed with
    | nil => rfl
    | cons x l => exact absurd (chain.1.symm.trans delaylist) chain.2.1
  obtain ⟨_, rs₁, h₂, q, -, rep₁, same, malloc, -, best⟩ :=
    malloc_best_fit rep (by decide : 0 < 24) (by decide)
  obtain rfl := same rfl
  obtain ⟨rfl, rfl⟩ := Prod.mk.inj (Option.some.inj (malloc.symm.trans small))
  obtain ⟨x, s, e, free, -, least⟩ := best (by decide)
  obtain rfl : x = 4104 := by omega
  obtain ⟨k, hk⟩ := rep₁.tiled.flux.header free
  obtain rfl : s = 32 := hk.sizeWord.symm.trans header
  exact ⟨_, rs₁, live, h₂, h'', rep₁, malloc, large, free, least⟩

end NuttxRtos.Heap
