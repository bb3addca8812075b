import NuttxRtos.Heap.Window

/-!
# Allocating

The search of `mm_malloc` runs along the chain from the bucket of the request; it stops at a chunk
that is large enough, and finds none only if the heap has none (`mallocLoop_spec`,
`mallocSection_spec`). The chunk found is split and marked.
-/

namespace NuttxRtos.Heap

open Memory Word List Focus

variable {nodelist : ℕ} {m : Memory}

/-! ## The search -/

theorem le_size2ndxLoop (fuel bytes ndx : ℕ) : ndx ≤ size2ndxLoop fuel bytes ndx := by
  induction fuel generalizing bytes ndx with
  | zero => exact le_rfl
  | succ fuel ih =>
    rw [size2ndxLoop]
    split_ifs
    · have := ih (bytes >>> 1) (ndx + 1)
      omega
    · exact le_rfl

variable {a b x : ℕ} {rs : List Region}

theorem size2ndxLoop_mono (fuel ndx : ℕ) (h : a ≤ b) :
    size2ndxLoop fuel a ndx ≤ size2ndxLoop fuel b ndx := by
  induction fuel generalizing a b ndx with
  | zero => exact le_rfl
  | succ fuel ih =>
    rw [size2ndxLoop, size2ndxLoop]
    by_cases ha : 1 < a
    · rw [if_pos ha, if_pos (by omega)]
      refine ih (ndx + 1) ?_
      omega
    split_ifs
    · have := le_size2ndxLoop fuel (b >>> 1) (ndx + 1)
      omega
    · exact le_rfl

theorem mmSize2ndx_mono (h : a ≤ b) : mmSize2ndx a ≤ mmSize2ndx b := by
  have top := mmSize2ndx_lt a
  rw [mmSize2ndx.eq_def b]
  split_ifs with hb
  · simp only [mmNnodes, mmMaxShift, mmMinShift]
    omega
  rw [mmSize2ndx, if_neg (by omega)]
  refine size2ndxLoop_mono 32 0 ?_
  simp only [Nat.shiftRight_eq_div_pow]
  exact Nat.div_le_div_right h

theorem mallocLoop_spec (alignsize : ℕ) {fuel p : ℕ} {l : List ℕ}
    (links : freenode.Links m (p :: l))
    (ne : ∀ x ∈ l, x ≠ 0) (enough : l.length < fuel) :
    ∃ r, mallocLoop m alignsize fuel (l.headD 0) = some r ∧
      (r = 0 ∧ (∀ x ∈ l, size m x < alignsize) ∨ alignsize ≤ size m r ∧
        ∃ pre post, l = pre ++ r :: post ∧ ∀ x ∈ pre, size m x < alignsize) := by
  induction l generalizing p fuel with
  | nil =>
    obtain ⟨fuel, rfl⟩ := Nat.exists_eq_add_of_lt enough
    exact ⟨0, by simp [mallocLoop], .inl (by simp)⟩
  | cons x l ih =>
    obtain ⟨fuel, rfl⟩ := Nat.exists_eq_add_of_lt enough
    rw [headD_cons, mallocLoop]
    by_cases small : size m x < alignsize
    · rw [if_pos ⟨ne x (by simp), small⟩, links.tail.next_eq]
      obtain ⟨r, run, h⟩ := ih links.tail (fun y hy => ne y (by simp [hy]))
        (show l.length < (x :: l).length + fuel by simp; omega)
      refine ⟨r, run, h.imp (fun h => ⟨h.1, ?_⟩) fun ⟨large, pre, post, split, before⟩ => ?_⟩
      · simpa [small] using h.2
      · exact ⟨large, x :: pre, post, by rw [split]; rfl, by simpa [small] using before⟩
    · rw [if_neg (by tauto)]
      exact ⟨x, rfl, .inr ⟨by omega, [], l, rfl, by simp⟩⟩

theorem Listed.ordered {B : Buckets} (lay : Layout nodelist rs) (ls : Listed nodelist m rs ∅ B) :
    (chain nodelist B).Pairwise fun x y =>
      ∀ s t, At rs x (.free s) → At rs y (.free t) → s ≤ t := by
  have head (i : ℕ) (hi : i < 19) (s : ℕ) : ¬ At rs (bucketHead nodelist i) (.free s) := fun h => by
    have := lay.nodelist_apart h
    have := lay.chunk_bounds h
    simp only [bucketHead, sizeofMmFreenode, headBytes] at *
    omega
  have node {i s : ℕ} {n : ℕ × ℕ} (hn : n ∈ B i) (free : At rs n.1 (.free s)) : s = n.2 :=
    (Chunk.mk.inj (lay.at_unique free (ls.node hn).1)).1
  have index {i x s : ℕ} (hi : i ∈ List.range 19) (hx : x ∈ bucketSeg nodelist B i)
      (free : At rs x (.free s)) : mmSize2ndx s = i := by
    rcases mem_cons.1 hx with rfl | hx
    · exact absurd free (head i (mem_range.1 hi) s)
    · obtain ⟨n, hn, rfl⟩ := mem_map.1 hx
      rw [node hn free, ls.index i n hn]
  refine pairwise_flatMap.2 ⟨fun i hi => ?_, pairwise_lt_range.imp_of_mem
    fun {i j} hi hj lt x hx y hy s t free free' => ?_⟩
  · refine pairwise_cons.2 ⟨fun y _ s t free _ => absurd free (head i (mem_range.1 hi) s), ?_⟩
    refine pairwise_map.2 ((ls.sorted i).imp_of_mem fun {n n'} hn hn' le s t free free' => ?_)
    rwa [node hn free, node hn' free']
  · have := index hi hx free
    have := index hj hy free'
    by_contra gt
    have := mmSize2ndx_mono (show t ≤ s by omega)
    omega

/-- The search of `mm_malloc` for a positive size: the smallest free chunk that is large enough, or
null if there is none. -/
theorem mallocSearch (tiled : Tiled nodelist m rs) {alignsize : ℕ} (pos : 0 < alignsize) : ∃ node,
      mallocLoop m alignsize walkFuel
        (freenode.next m (bucketHead nodelist (mmSize2ndx alignsize))) = some node ∧
      (node = 0 ∧ (∀ x s, At rs x (.free s) → s < alignsize) ∨
        node ≠ 0 ∧ ∃ s, At rs node (.free s) ∧ alignsize ≤ s ∧
          ∀ y t, At rs y (.free t) → alignsize ≤ t → s ≤ t) := by
  obtain ⟨lay, flux⟩ := tiled
  obtain ⟨B, ls⟩ := flux.listed
  have hi := mmSize2ndx_lt alignsize
  have links := ls.links
  have nodup := ls.nodup
  have addr := ls.addr lay
  have ordered := ls.ordered lay
  have nodes (x : ℕ) : x ∈ chain nodelist B ↔ _ := mem_chain
  rw [chain_split hi] at links nodup addr ordered nodes
  have rest := (LinkFields.links_append.1 links).2
  have short : ((B (mmSize2ndx alignsize)).map Prod.fst ++
      chainAfter nodelist B (mmSize2ndx alignsize)).length < walkFuel := by
    have := length_le_walkFuel nodup fun y hy => (addr y hy).2
    simp only [length_append, length_cons] at this ⊢
    omega
  -- a large enough chunk lies in this or a later bucket
  have reached {x s : ℕ} (hx : At rs x (.free s)) (le : alignsize ≤ s) :
      x ∈ (B (mmSize2ndx alignsize)).map Prod.fst ++ chainAfter nodelist B (mmSize2ndx alignsize) ∧
        alignsize ≤ size m x := by
    have entry := (ls.nodes x s).2 ⟨hx, by simp⟩
    obtain ⟨q, hq⟩ := flux.header hx
    refine ⟨?_, le.trans_eq hq.sizeWord.symm⟩
    rcases eq_or_lt_of_le (mmSize2ndx_mono le) with e | lt
    · rw [e]
      exact mem_append_left _ (mem_map.2 ⟨_, entry, rfl⟩)
    · have last := mmSize2ndx_lt s
      refine mem_append_right _ (mem_flatMap.2 ⟨mmSize2ndx s, mem_range'_1.2 (by omega), ?_⟩)
      exact mem_cons_of_mem _ (mem_map.2 ⟨_, entry, rfl⟩)
  obtain ⟨r, run, h⟩ := mallocLoop_spec alignsize rest
    (fun x hx => (addr x (mem_append_right _ (mem_cons_of_mem _ hx))).1.ne') short
  refine ⟨r, by rw [rest.next_eq]; exact run, h.imp (fun h => ⟨h.1, fun x s hx => ?_⟩)
    fun ⟨large, pre, post, split, before⟩ => ?_⟩
  · by_contra le
    obtain ⟨mem, large⟩ := reached hx (not_lt.1 le)
    exact absurd large (not_le.2 (h.2 x mem))
  have mem := mem_append_right (chainBefore nodelist B (mmSize2ndx alignsize))
    (mem_cons_of_mem (bucketHead nodelist (mmSize2ndx alignsize)) (split ▸ mem_append_right pre
      (mem_cons_self (a := r) (l := post))))
  refine ⟨(addr r mem).1.ne', ?_⟩
  obtain ⟨i, hi, rfl | ⟨s, hs⟩⟩ := (nodes r).1 mem
  · have := ls.heads i hi
    omega
  have hr := (ls.node hs).1
  obtain ⟨q, hq⟩ := flux.header hr
  refine ⟨s, hr, large.trans_eq hq.sizeWord, fun y t hy le => ?_⟩
  -- it does not stand before the chunk found, where all sizes are too small
  obtain ⟨mem', large'⟩ := reached hy le
  rw [split] at mem' ordered
  have ordered := (pairwise_append.1 (pairwise_append.1 ordered).2.1.of_cons).2.1
  rcases mem_append.1 mem' with small | same
  · exact absurd large' (not_le.2 (before y small))
  rcases mem_cons.1 same with rfl | later
  · rw [← (Chunk.mk.inj (lay.at_unique hr hy)).1]
  · exact (pairwise_cons.1 ordered).1 y later s t hr hy

/-! ## Splitting and marking -/

variable {F : Focus} {s a : ℕ}

section

variable (lay : Layout nodelist (F.plug [.free s]))
  (flux : Flux nodelist m (F.plug [.free s]) {F.lo})
include lay flux

theorem Flux.setMark : Flux nodelist (setPreceding m F.lo (preceding m F.lo ||| mmAllocBit))
      (F.plug [.used s fun i => m (F.lo + 8 + i)]) ∅ := by
  have bounds := bounds₁ lay
  have head := flux.window.1.sizeWord
  have prec : preceding m F.lo = F.prevSize := flux.window.1.precedingWord
  have next := flux.next₁
  simp only at bounds next head
  rw [prec, or_allocBit (by omega)]
  refine flux.retile lay (by simp) (by simp) ?_ rfl ?_ ⟨⟨?_, ?_, ?_⟩, trivial⟩ ?_
  · simp
    omega
  · exact sameOff_store32 (.refl _ m) (by simp; omega)
  · rw [← head]
    exact load32_store32_off m (by omega)
  · exact load32_store32_same m (by omega)
  · rintro f ⟨⟩ i hi
    exact store32_off m (by omega)
  simp only [extent_cons, extent_nil, add_zero, lastSize_cons, lastSize_nil]
  rw [← next.precedingWord]
  exact load32_store32_off m (by omega)

theorem Flux.split (ha : 16 ≤ a) (room : a + 16 ≤ s) :
    Flux nodelist (updatePreceding (setSize (setPreceding (setSize m (F.lo + a) (s - a))
      (F.lo + a) a) F.lo a) (F.lo + s) (s - a)) (F.plug [.free a, .free (s - a)])
      {F.lo + a, F.lo} := by
  have bounds := bounds₁ lay
  have head : preceding m F.lo = F.prevSize := flux.window.1.precedingWord
  have next := flux.next₁
  have tag := F.next.tag_cases
  simp only at bounds next
  rw [next.updatePreceding_eq (by simp (disch := omega)) (by omega) (by omega)]
  refine flux.retile lay (by simp) ?_ ?_ (by simp; omega) ?_ ⟨⟨?_, ?_, by simp⟩,
    ⟨?_, ?_, by simp⟩, trivial⟩ ?_
  · simp only [placed_cons, placed_nil, mem_cons, Prod.mk.injEq]
    rintro x _ (⟨rfl, -⟩ | ⟨rfl, -⟩ | h)
    · simp
    · simp
    · exact absurd h not_mem_nil
  · simp
    omega
  · refine sameOff_store32 ?_ (by simp)
    iterate 3 refine sameOff_store32 ?_ (by simp; omega)
    exact .refl _ m
  · simp (disch := omega)
  · rw [Chunk.tag_free, add_zero, ← head]
    simp (disch := omega)
  · simp (disch := omega)
  · simp (disch := omega)
  · exact load32_store32_same _ (by omega)

end

theorem mallocNode_spec (tiled : Tiled nodelist m rs) (hx : At rs x (.free s)) (ha : 16 ≤ a)
    (aligned : a % 16 = 0) (le : a ≤ s) :
    ∃ m' rs' g, mallocNode nodelist m x a = some (m', x + 8) ∧ Tiled nodelist m' rs' ∧
      Evolve rs rs' ∅ {(x, .used a g)} ∧ (Coalesced rs → Coalesced rs' ∧ ¬ FreeBefore rs' x) := by
  obtain ⟨lay, flux⟩ := tiled
  have loose := flux.unlink lay hx (by simp)
  obtain ⟨F, rfl, rfl⟩ := exists_plug hx
  have bounds := bounds₁ lay
  rw [insert_empty_eq] at loose
  have head : size (freenode.unlink m F.lo) F.lo = s := loose.window.1.sizeWord
  simp only at bounds
  simp only [mallocNode, head, sub32_eq le (by omega), add32_eq (show F.lo + s < 2 ^ 32 by omega),
    add32_eq (show F.lo + a < 2 ^ 32 by omega), add32_allocnode (show F.lo + 8 < 2 ^ 32 by omega)]
  by_cases room : a + 16 ≤ s
  · rw [if_pos (by simp only [sizeofMmFreenode]; omega)]
    have cut := loose.split lay ha room
    have span : extent [Chunk.free a, .free (s - a)] = extent [.free s] := by simp; omega
    have lay₂ := layout_plug lay span (by simp; omega)
    obtain ⟨m₁, run, flux₁⟩ := cut.addfreechunk lay₂
      (at_plug.2 (.inr (show (F.lo + a, Chunk.free (s - a)) ∈ _ by simp))) (by simp; omega)
    rw [← singleton_append, ← plug_narrow] at lay₂ flux₁
    have lay₃ (g : ℕ → UInt8) : Layout nodelist ((F.narrow (.free (s - a))).plug [.used a g]) :=
      layout_plug lay₂ rfl (by simp; omega)
    refine ⟨_, _, fun i => m₁ (F.lo + 8 + i), ?_, ⟨lay₃ _, flux₁.setMark lay₂⟩, ?_, fun co => ?_⟩
    · rw [run]
      rfl
    · have lay₄ := lay₃ fun i => m₁ (F.lo + 8 + i)
      rw [plug_narrow] at lay₄ ⊢
      simpa using evolve lay lay₄ (by simp; omega)
    refine ⟨?_, fun before => (free_sides co).1 (prev_of_freeBefore
      (F := F.narrow (.free (s - a))) (lay₃ _) before)⟩
    rw [plug_narrow]
    exact (outer co).plug (by simp [Spaced]) (.inr (by simp)) (.inr (free_sides co).2)
  obtain rfl : a = s := by omega
  rw [if_neg (by simp only [sizeofMmFreenode]; omega)]
  have lay₂ (g : ℕ → UInt8) : Layout nodelist (F.plug [.used a g]) :=
    layout_plug lay rfl (by simp; omega)
  refine ⟨_, _, fun i => freenode.unlink m F.lo (F.lo + 8 + i), rfl,
    ⟨lay₂ _, loose.setMark lay⟩, ?_, fun co => ?_⟩
  · simpa using evolve lay (lay₂ _) rfl
  · exact ⟨(outer co).plug_used,
      fun before => (free_sides co).1 (prev_of_freeBefore (lay₂ _) before)⟩

/-- `mm_malloc` in one critical section: null if no chunk is large enough, else a new block. -/
theorem mallocSection_spec (tiled : Tiled nodelist m rs) (ha : 16 ≤ a) (aligned : a % 16 = 0) :
    ∃ m' ret, mallocSection nodelist m a = some (m', ret) ∧
      (ret = 0 ∧ m' = m ∧ (∀ x s, At rs x (.free s) → s < a) ∨
        ∃ x rs' g, ret = x + 8 ∧ (∃ s, At rs x (.free s) ∧ a ≤ s ∧
            ∀ y t, At rs y (.free t) → a ≤ t → s ≤ t) ∧ Tiled nodelist m' rs' ∧
          Evolve rs rs' ∅ {(x, .used a g)} ∧
          (Coalesced rs → Coalesced rs' ∧ ¬ FreeBefore rs' x)) := by
  obtain ⟨node, run, h⟩ := mallocSearch tiled (show 0 < a by omega)
  have ndx : (if mmMaxChunk ≤ a then mmNnodes - 1 else mmSize2ndx a) = mmSize2ndx a := by
    split_ifs with h
    · rw [mmSize2ndx, if_pos h]
    · rfl
  simp only [mallocSection, ndx, run, Option.bind_eq_bind, Option.bind_some]
  rcases h with ⟨rfl, none⟩ | ⟨ne, s, hs, le, least⟩
  · exact ⟨m, 0, by simp, .inl ⟨rfl, rfl, none⟩⟩
  obtain ⟨m', rs', g, run', tiled', ev, co⟩ := mallocNode_spec tiled hs ha aligned le
  exact ⟨m', node + 8, by rw [if_pos ne]; exact run',
    .inr ⟨node, rs', g, rfl, ⟨s, hs, le, least⟩, tiled', ev, co⟩⟩

end NuttxRtos.Heap
