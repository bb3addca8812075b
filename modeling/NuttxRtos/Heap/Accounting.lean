import NuttxRtos.Heap.WellFormed

/-!
# Heap accounting

`mm_mallinfo` walks the regions and adds up the sizes of the used and of the free chunks. The debug
assertion at its end compares these bytes with the cached total `mm_heapsize`, which `mm_addregion`
keeps up to date and `mm_extend` does not.
-/

namespace NuttxRtos.Heap

open Memory Word List

/-! ## The walk over the chunks -/

def account (info : Mallinfo) (c : Chunk) : Mallinfo :=
  match c.data with
  | some _ => { info with uordblks := add32 info.uordblks c.size }
  | none =>
    { info with
      ordblks := info.ordblks + 1
      fordblks := add32 info.fordblks c.size
      mxordblk := if info.mxordblk < c.size then c.size else info.mxordblk }

def freeChunks (a : ℕ) : List Chunk → List (ℕ × ℕ)
  | [] => []
  | c :: l =>
    match c.data with
    | some _ => freeChunks (a + c.size) l
    | none => (a, c.size) :: freeChunks (a + c.size) l

def allFree (rs : List Region) : List (ℕ × ℕ) := rs.flatMap fun r => freeChunks (r.base + 8) r.mids

variable {m : Memory} {rs : List Region} {nodelist : ℕ} {info : Mallinfo}

variable {a : ℕ}

variable {p : ℕ} {r : Region} {n : ℕ × ℕ} {s : State}

theorem mallinfoNode_eq {c : Chunk} (h : Header m a p c) (hp : p < 2 ^ 31) :
    mallinfoNode m info a = account info c := by
  have mark := h.marked_iff hp
  unfold Marked at mark
  rcases c with ⟨s, _ | f⟩
  · rw [mallinfoNode, if_neg (by simpa using mark), h.sizeWord]
    rfl
  · rw [mallinfoNode, if_pos (by simpa using mark), h.sizeWord]
    rfl

variable {l : List Chunk}

theorem mallinfoLoop_eq {fuel : ℕ} (h : Headers m a p l) (hp : p < 2 ^ 31)
    (sizes : ∀ c ∈ l, 0 < c.size ∧ c.size < 2 ^ 31) (fits : a + extent l < 2 ^ 32)
    (enough : l.length < fuel) :
    mallinfoLoop m (a + extent l) fuel info a = some (l.foldl account info) := by
  induction l generalizing a p fuel info with
  | nil =>
    obtain ⟨fuel, rfl⟩ := Nat.exists_eq_add_of_lt enough
    simp [mallinfoLoop]
  | cons c l ih =>
    obtain ⟨fuel, rfl⟩ : ∃ k, fuel = k + 1 := ⟨fuel - 1, by omega⟩
    obtain ⟨pos, small⟩ := sizes c (by simp)
    rw [extent_cons] at fits ⊢
    rw [mallinfoLoop, if_pos (by omega), mallinfoNode_eq h.1 hp, h.1.sizeWord,
      add32_eq (by omega), ← add_assoc]
    exact ih h.2 small (fun d hd => sizes d (mem_cons_of_mem _ hd)) (by omega)
      (by simpa using enough)

/-! ## What the walk adds up -/

/-- How `info'` extends `info` by `bytes` bytes and the free chunks `free`. -/
structure Counted (info info' : Mallinfo) (bytes : ℕ) (free : List (ℕ × ℕ)) : Prop where
  bytes : info'.uordblks + info'.fordblks = info.uordblks + info.fordblks + bytes
  ordblks : info'.ordblks = info.ordblks + free.length
  above : ∀ n ∈ free, n.2 ≤ info'.mxordblk
  largest : info.mxordblk ≤ info'.mxordblk ∧
    (info'.mxordblk = info.mxordblk ∨ ∃ n ∈ free, n.2 = info'.mxordblk)

theorem Counted.refl (info : Mallinfo) : Counted info info 0 [] := by
  constructor <;> simp

theorem Counted.trans {info₁ info₂ info₃ : Mallinfo} {b b' : ℕ} {free free' : List (ℕ × ℕ)}
    (first : Counted info₁ info₂ b free) (second : Counted info₂ info₃ b' free') :
    Counted info₁ info₃ (b + b') (free ++ free') := by
  obtain ⟨bytes, ord, above, low, big⟩ := first
  obtain ⟨bytes', ord', above', low', big'⟩ := second
  refine ⟨by omega, by simp; omega, fun n hn => ?_, low.trans low', ?_⟩
  · rcases mem_append.1 hn with hn | hn
    · exact (above n hn).trans low'
    · exact above' n hn
  rcases big' with e | ⟨n, hn, e⟩
  · rw [e]
    exact big.imp id fun ⟨n, hn, h⟩ => ⟨n, mem_append_left _ hn, h⟩
  · exact .inr ⟨n, mem_append_right _ hn, e⟩

theorem account_counted (a : ℕ) (c : Chunk)
    (fits : info.uordblks + info.fordblks + c.size < 2 ^ 32) :
    Counted info (account info c) c.size (freeChunks a [c]) := by
  rcases c with ⟨s, _ | f⟩
  · simp only at fits
    refine ⟨?_, rfl, ?_, ?_⟩
    · simp only [account]
      rw [add32_eq (by omega)]
      omega
    · simp only [freeChunks, mem_singleton, account, forall_eq]
      split <;> omega
    · simp only [freeChunks, mem_singleton, account, exists_eq_left]
      split <;> omega
  simp only at fits
  refine ⟨?_, rfl, by simp [freeChunks], by simp [account]⟩
  simp only [account]
  rw [add32_eq (by omega)]
  omega

theorem freeChunks_cons (a : ℕ) (c : Chunk) (l : List Chunk) :
    freeChunks a (c :: l) = freeChunks a [c] ++ freeChunks (a + c.size) l := by
  rcases c with ⟨s, _ | f⟩ <;> rfl

theorem foldl_account_counted (fits : info.uordblks + info.fordblks + extent l < 2 ^ 32) :
    Counted info (l.foldl account info) (extent l) (freeChunks a l) := by
  induction l generalizing info a with
  | nil => exact .refl info
  | cons c l ih =>
    rw [extent_cons] at fits ⊢
    rw [freeChunks_cons, foldl_cons]
    have head : Counted info (account info c) c.size (freeChunks a [c]) :=
      account_counted a c (by omega)
    exact head.trans (ih (by have := head.bytes; omega))

theorem Region.Ok.length_lt (ok : r.Ok) : r.mids.length + 1 < walkFuel := by
  have long : ∀ l : List Chunk, (∀ c ∈ l, 16 ∣ c.size ∧ 16 ≤ c.size) → l.length ≤ extent l := by
    intro l sizes
    induction l with
    | nil => simp
    | cons c l ih =>
      have := sizes c (by simp)
      have := ih fun d hd => sizes d (mem_cons_of_mem _ hd)
      rw [extent_cons, length_cons]
      omega
  have := long r.mids ok.sizes
  have := ok.tagged
  unfold walkFuel
  omega

theorem mallinfo_region (ok : r.Ok) (headers : Headers m r.base 0 r.chunks)
    (fits : info.uordblks + info.fordblks + (r.stop - r.base) < 2 ^ 32) :
    ∃ info₁ info₂, mallinfoLoop m r.last walkFuel info r.base = some info₁ ∧
      info₂ = { info₁ with uordblks := add32 info₁.uordblks sizeofMmAllocnode } ∧
      Counted info info₂ (r.stop - r.base) (freeChunks (r.base + 8) r.mids) := by
  have last : r.last = r.base + extent (guard :: r.mids) := by
    simp [Region.last, add_assoc]
  have stop : r.stop - r.base = extent (guard :: r.mids) + 8 := by
    simp only [Region.stop, extent_cons, guard_size]
    omega
  have front : Headers m r.base 0 (guard :: r.mids) := by
    rw [Region.chunks, ← cons_append, headers_append] at headers
    exact headers.1
  have counted : Counted info ((guard :: r.mids).foldl account info) (extent (guard :: r.mids))
      (freeChunks r.base (guard :: r.mids)) := foldl_account_counted (by omega)
  refine ⟨(guard :: r.mids).foldl account info, _, ?_, rfl, ?_⟩
  · rw [last]
    refine mallinfoLoop_eq front (by omega) (fun c hc => ok.chunk_sizes c ?_) ?_ ok.length_lt
    · exact mem_append_left _ hc
    have := ok.fits
    rw [← last]
    unfold Region.stop at this
    unfold Region.last
    omega
  obtain ⟨bytes, ord, above, largest⟩ := counted
  refine ⟨?_, ord, above, largest⟩
  simp only
  rw [add32_eq (by simp only [sizeofMmAllocnode]; omega), sizeofMmAllocnode]
  omega

theorem mallinfoRegions_spec (ok : ∀ r ∈ rs, r.Ok) (headers : ∀ r ∈ rs, Headers m r.base 0 r.chunks)
    (fits : info.uordblks + info.fordblks + total rs < 2 ^ 32) :
    ∃ info', mallinfoRegions m (rs.map fun r => (r.base, r.last)) info = some info' ∧
      Counted info info' (total rs) (allFree rs) := by
  induction rs generalizing info with
  | nil => exact ⟨info, rfl, .refl info⟩
  | cons r rs ih =>
    have split : total (r :: rs) = (r.stop - r.base) + total rs := by simp [total]
    obtain ⟨info₁, info₂, walk, tail, counted⟩ :=
      mallinfo_region (ok r (by simp)) (headers r (by simp))
      (show info.uordblks + info.fordblks + (r.stop - r.base) < 2 ^ 32 by omega)
    have room : info₂.uordblks + info₂.fordblks + total rs < 2 ^ 32 := by
      have := counted.bytes
      omega
    obtain ⟨info', rest, counted'⟩ := ih (fun r hr => ok r (mem_cons_of_mem _ hr))
      (fun r hr => headers r (mem_cons_of_mem _ hr)) room
    refine ⟨info', ?_, counted.trans counted'⟩
    rw [map_cons, mallinfoRegions, walk, ← rest, tail]
    rfl

/-! ## The free list -/

def freeNodes (B : Buckets) : List (ℕ × ℕ) := (List.range mmNnodes).flatMap B

theorem mem_freeChunks : n ∈ freeChunks a l ↔ (n.1, Chunk.free n.2) ∈ placed a l := by
  induction l generalizing a with
  | nil => simp [freeChunks]
  | cons c l ih =>
    rcases c with ⟨s, _ | f⟩
    · simp [freeChunks, ih, Prod.ext_iff]
    · simp [freeChunks, ih]

theorem mem_allFree : n ∈ allFree rs ↔ At rs n.1 (.free n.2) := by
  simp [allFree, At, mem_freeChunks]

theorem freeChunks_sorted (sizes : ∀ c ∈ l, 0 < c.size) :
    (freeChunks a l).Pairwise fun n n' => n.1 < n'.1 := by
  induction l generalizing a with
  | nil => exact .nil
  | cons c l ih =>
    have tail := ih (a := a + c.size) fun d hd => sizes d (mem_cons_of_mem _ hd)
    have pos := sizes c (by simp)
    rcases c with ⟨s, _ | f⟩
    · refine pairwise_cons.2 ⟨fun n hn => ?_, tail⟩
      have := (placed_bounds (mem_freeChunks.1 hn)).2.1
      omega
    · exact tail

theorem allFree_nodup (lay : Layout nodelist rs) : (allFree rs).Nodup := by
  refine nodup_flatMap.2 ⟨fun r hr => ?_, ?_⟩
  · refine (freeChunks_sorted fun c hc => ?_).imp fun {n n'} lt (e : n = n') => lt.ne (e ▸ rfl)
    have := (lay.ok r hr).sizes c hc
    omega
  refine lay.disjoint.imp_of_mem fun {r r'} hr hr' far n hn hn' => ?_
  have := (lay.ok r hr).bounds (mem_freeChunks.1 hn)
  have := (lay.ok r' hr').bounds (mem_freeChunks.1 hn')
  simp only [Region.Apart] at far
  omega

theorem Listed.perm {B : Buckets} (ls : Listed nodelist m rs ∅ B) (lay : Layout nodelist rs) :
    (freeNodes B).Perm (allFree rs) := by
  have listed : ∀ {i n}, n ∈ B i ↔ mmSize2ndx n.2 = i ∧ At rs n.1 (.free n.2) := by
    intro i n
    constructor
    · exact fun hn => ⟨ls.index i n hn, (ls.node hn).1⟩
    · rintro ⟨rfl, hn⟩
      exact (ls.nodes n.1 n.2).2 ⟨hn, by simp⟩
  have once : (freeNodes B).Nodup := by
    refine nodup_flatMap.2 ⟨fun i hi => ?_, ?_⟩
    · have seg := ls.nodup
      rw [chain, nodup_flatMap] at seg
      exact .of_map _ (nodup_cons.1 (seg.1 i hi)).2
    · refine nodup_range.pairwise_of_forall_ne fun i _ j _ ne n hn hn' => ne ?_
      exact (listed.1 hn).1.symm.trans (listed.1 hn').1
  refine (perm_ext_iff_of_nodup once (allFree_nodup lay)).2 fun n => ?_
  rw [mem_allFree, freeNodes, mem_flatMap]
  constructor
  · rintro ⟨i, -, hn⟩
    exact (listed.1 hn).2
  · exact fun hn => ⟨_, mem_range.2 (mmSize2ndx_lt n.2), listed.2 ⟨rfl, hn⟩⟩

/-! ## Runs -/

/-- The counts of `mm_mallinfo` for the free list `B`. -/
structure Exact (info : Mallinfo) (B : Buckets) : Prop where
  ordblks : info.ordblks = (freeNodes B).length
  above : ∀ n ∈ freeNodes B, n.2 ≤ info.mxordblk
  largest : freeNodes B = [] ∧ info.mxordblk = 0 ∨ ∃ n ∈ freeNodes B, n.2 = info.mxordblk

theorem Inv.mallinfo {extra : ℕ} (inv : Inv extra s) :
    ∃ info regions B, mmMallinfo s.heap = some info ∧ info.arena = s.heap.heapsize ∧
      info.uordblks + info.fordblks = info.arena + extra ∧ HeapWf s.heap regions B ∧
      Exact info B := by
  obtain ⟨rs, delayed, rep, co, sum⟩ := inv
  obtain ⟨B, ls⟩ := rep.tiled.flux.listed
  have perm := ls.perm rep.tiled.lay
  have room : (⟨0, 0, 0, 0, 0⟩ : Mallinfo).uordblks + (⟨0, 0, 0, 0, 0⟩ : Mallinfo).fordblks +
      total rs < 2 ^ 32 := by
    simpa using rep.tiled.lay.total_lt
  obtain ⟨info, run, bytes, ord, above, -, largest⟩ :=
    mallinfoRegions_spec rep.tiled.lay.ok rep.tiled.flux.headers room
  refine ⟨{ info with arena := s.heap.heapsize }, _, B, ?_, rfl, ?_, rep.heapWf co ls, ?_, ?_, ?_⟩
  · rw [mmMallinfo, ← MmHeap.spans, rep.spans, run]
    rfl
  · simp only at bytes ⊢
    omega
  · simp only at ord ⊢
    rw [ord, perm.length_eq, zero_add]
  · exact fun n hn => above n (perm.mem_iff.1 hn)
  rcases largest with zero | ⟨n, hn, e⟩
  · refine .inl ⟨eq_nil_iff_forall_not_mem.2 fun n hn => ?_, zero⟩
    have free := mem_allFree.1 (perm.mem_iff.1 hn)
    have size : 16 ≤ n.2 := (rep.tiled.lay.chunk_bounds free).2.2.1
    have below : n.2 ≤ 0 := (above n (perm.mem_iff.1 hn)).trans_eq zero
    omega
  · exact .inr ⟨n, perm.mem_iff.2 hn, e⟩

theorem extended_pos {limit maxRegions : ℕ} {ops : List Op} (run : Run limit maxRegions ops s) :
    (ops.map Op.extended).sum = 0 ↔ ∀ bytes region, Op.extend bytes region ∉ ops := by
  induction run with
  | init => simp
  | @step ops s s' op before valid run ih =>
    have one : op.extended = 0 ↔ ∀ bytes region, op ≠ .extend bytes region := by
      cases op with
      | extend bytes region =>
        have := valid.large
        simp only [Op.extended, ne_eq, Op.extend.injEq, not_and]
        exact ⟨fun h => by omega, fun h => absurd rfl (h bytes region rfl)⟩
      | _ => simp [Op.extended]
    simp only [map_append, map_cons, map_nil, sum_append, sum_cons,
      sum_nil, Nat.add_zero, Nat.add_eq_zero_iff, ih, one, mem_append,
      mem_singleton, not_or, forall_and]
    exact and_congr .rfl ⟨fun h b r e => h b r e.symm, fun h b r e => h b r e.symm⟩

/-- `mm_mallinfo` counts the free list exactly; the sum of the used and the free bytes is
`mm_heapsize` in exactly the runs without `mm_extend`. -/
theorem run_mallinfo {maxRegions : ℕ} {ops : List Op} {s : State}
    (run : Run (2 ^ 31) maxRegions ops s) :
    ∃ info regions B, mmMallinfo s.heap = some info ∧ info.arena = s.heap.heapsize ∧
      HeapWf s.heap regions B ∧ Exact info B ∧
      (info.uordblks + info.fordblks = info.arena ↔
        ∀ bytes region, Op.extend bytes region ∉ ops) := by
  obtain ⟨info, regions, B, walk, arena, bytes, wf, exact⟩ := (run.inv le_rfl).mallinfo
  refine ⟨info, regions, B, walk, arena, wf, exact, ?_⟩
  rw [← extended_pos run, bytes]
  omega

theorem exists_run {op : Op} (valid : ∀ h : MmHeap, h.nodelist = 256 → h.spans = [(4096, 5112)] →
    Valid (2 ^ 31) 1 ⟨h, []⟩ op) : ∃ s, Run (2 ^ 31) 1 [op] s := by
  obtain ⟨h, run, before⟩ := exists_init
  have init : (mmInitialize 1 (fun _ => 0) 256 4096 1024).map (fun h => (h.nodelist, h.spans)) =
      some (256, [(4096, 5112)]) := by
    decide +kernel
  rw [run, Option.map_some, Option.some.injEq, Prod.mk.injEq] at init
  obtain ⟨nodelist, spans⟩ := init
  obtain ⟨s, run, -⟩ := step_inv le_rfl (before.inv le_rfl) (valid h nodelist spans)
  exact ⟨s, before.step (valid h nodelist spans) run⟩

theorem run_mallinfo_malloc : ∃ s info, Run (2 ^ 31) 1 [.malloc 24] s ∧
    mmMallinfo s.heap = some info ∧ info.uordblks + info.fordblks = info.arena := by
  obtain ⟨s, run⟩ : ∃ s, Run (2 ^ 31) 1 [.malloc 24] s := exists_run fun h _ _ => by simp [Valid]
  obtain ⟨info, regions, B, walk, -, -, -, iff⟩ := run_mallinfo run
  exact ⟨s, info, run, walk, iff.2 (by simp)⟩

/-- After 64 bytes were added to a heap of 1 KiB, `mm_mallinfo` finds 64 bytes more than
`mm_heapsize`. -/
theorem extend_breaks_accounting : ¬ ∀ maxRegions ops s info, Run (2 ^ 31) maxRegions ops s →
    mmMallinfo s.heap = some info → info.uordblks + info.fordblks = info.arena := by
  intro all
  obtain ⟨s, run⟩ : ∃ s, Run (2 ^ 31) 1 [.extend 64 0] s := exists_run fun h nodelist spans => by
    constructor <;> simp [nodelist, spans, headBytes]
  obtain ⟨info, regions, B, walk, -, bytes, -, -⟩ := (run.inv le_rfl).mallinfo
  rw [all 1 _ s info run walk] at bytes
  simp [Op.extended] at bytes

end NuttxRtos.Heap
