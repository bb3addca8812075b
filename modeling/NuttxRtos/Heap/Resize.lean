import NuttxRtos.Heap.Window

/-!
# Resizing

`mm_shrinkchunk`, the two extensions of `mm_realloc` and the split of `mm_memalign`, each on a
window that holds one block. Every result is a window with one block again (`Replace`), so that the
steps compose; what they do to the free neighbours is hidden in the new focus.
-/

namespace NuttxRtos.Heap

open Memory Word Option Focus

variable {nodelist : ℕ} {m : Memory} {F : Focus} {s t b k : ℕ} {f g : ℕ → UInt8}

/-- The block of `F.plug [.used s f]` became the block of `F'.plug [.used s' g]`. -/
structure Replace (nodelist : ℕ) (F : Focus) (s : ℕ) (f : ℕ → UInt8) (m' : Memory) (F' : Focus)
    (s' : ℕ) (g : ℕ → UInt8) : Prop where
  tiled : Tiled nodelist m' (F'.plug [.used s' g])
  evolve : Evolve (F.plug [.used s f]) (F'.plug [.used s' g]) {(F.lo, .used s f)}
    {(F'.lo, .used s' g)}

variable {m' : Memory} {rest : List Chunk}

theorem Replace.trans {m'' : Memory} {F' F'' : Focus} {s' s'' : ℕ} {h : ℕ → UInt8}
    (first : Replace nodelist F s f m' F' s' g) (second : Replace nodelist F' s' g m'' F'' s'' h) :
    Replace nodelist F s f m'' F'' s'' h :=
  ⟨second.tiled, first.evolve.trans second.evolve⟩

/-! ## Shrinking -/

theorem Flux.cut {loose : Set ℕ} (lay : Layout nodelist (F.plug (.used s f :: rest)))
    (flux : Flux nodelist m (F.plug (.used s f :: rest)) loose)
    (all : ∀ x t, (x, Chunk.free t) ∈ placed (F.lo + s) rest → x ∈ loose)
    (inside : ∀ x ∈ loose, F.lo ≤ x ∧ x < F.lo + (s + extent rest)) (hb : 16 ≤ b)
      (lt : b + 16 ≤ s) :
    Flux nodelist (setPreceding (setSize (setPreceding (setSize m (F.lo + b) (s + extent rest - b))
      (F.lo + b) b) F.lo b) (F.lo + (s + extent rest)) (s + extent rest - b + F.next.tag))
      (F.plug [.used b f, .free (s + extent rest - b)]) {F.lo + b} := by
  have bounds := window_bounds lay
  have head := flux.window.1
  have tag := F.next.tag_cases
  generalize hS : s + extent rest = S at *
  have span : extent (.used s f :: rest) = S := by simpa using hS
  refine flux.retile lay ?_ ?_ ?_ ?_ ?_ ⟨⟨?_, ?_, ?_⟩, ⟨?_, ?_, by simp⟩, trivial⟩ ?_
  · simpa using all
  · simp
  · simp only [span, Set.mem_singleton_iff]
    rintro x (hx | rfl)
    · exact inside x hx
    · omega
  · simp only [span, extent_cons, extent_nil]
    omega
  · iterate 4 refine sameOff_store32 ?_ (by rw [span]; omega)
    exact .refl _ m
  · simp (disch := omega)
  · rw [Chunk.tag_used, ← Chunk.tag_used s f, ← head.precedingWord]
    simp (disch := omega)
  · rintro _ ⟨⟩ i hi
    have same := head.payload f rfl i (by simp only at *; omega)
    simp only at hi
    rw [← same]
    simp (disch := omega) only [setSize, setPreceding, store32_off]
  · simp (disch := omega)
  · simp (disch := omega)
  · rw [span]
    exact load32_store32_same _ (by simp; omega)

theorem Flux.cut_listed {S : ℕ} (lay : Layout nodelist (F.plug (.used s f :: rest)))
    (hS : extent (.used s f :: rest) = S)
    (flux : Flux nodelist m' (F.plug [.used b f, .free (S - b)]) {F.lo + b}) (hb : 16 ≤ b)
    (aligned : b % 16 = 0) (lt : b + 16 ≤ s) :
    ∃ m'', mmAddfreechunk nodelist m' (F.lo + b) = some m'' ∧
      Tiled nodelist m'' ((F.narrow (.free (S - b))).plug [.used b f]) := by
  have ok := lay.ok _ region_mem
  have dvd : 16 ∣ extent (.used s f :: rest) :=
    extent_dvd fun c hc => ok.sizes c (by
      simp only [region, List.mem_append]
      exact .inl (.inr hc))
  have lay' : Layout nodelist (F.plug [.used b f, .free (S - b)]) := by
    refine layout_plug lay ?_ ?_
    · simp only [extent_cons, extent_nil] at *
      omega
    simp only [extent_cons] at *
    simp
    omega
  rw [plug_narrow]
  exact flux.list (s := S - b) lay' (by simp)

theorem mmShrinkchunk_spec (tiled : Tiled nodelist m (F.plug [.used s f])) (hb : 16 ≤ b)
    (aligned : b % 16 = 0) (lt : b < s) :
    ∃ (m' : Memory) (F' : Focus), mmShrinkchunk nodelist m F.lo b = some m' ∧ F'.lo = F.lo ∧
      Replace nodelist F s f m' F' b f ∧ (F.Outer → F'.Outer) ∧ F'.prev = F.prev := by
  obtain ⟨lay, flux⟩ := tiled
  have bounds := bounds₁ lay
  have head := flux.window.1.sizeWord
  have next := flux.next₁
  simp only at bounds next head
  have room : b + 16 ≤ s := by omega
  simp only [mmShrinkchunk, head, add32_eq (show F.lo + s < 2 ^ 32 by omega),
    add32_eq (show F.lo + b < 2 ^ 32 by omega), next.sizeWord]
  by_cases free : F.next.data = none
  · rw [if_pos ((next.free_iff (by omega)).2 free)]
    obtain ⟨post, t, hpost, ht, widen, lay₂, loose⟩ := flux.takeNext lay free (by simp)
    have bounds₂ := bounds₂ lay₂
    have sizes := loose.window
    have next₂ := loose.next₂
    simp only [headers_cons, lo_widenNext] at bounds₂ sizes next₂
    have cut := Flux.cut lay₂ loose (by simp) (by simp; omega) hb room
    obtain ⟨m', run, tiled'⟩ := Flux.cut_listed lay₂ (by simp) cut hb aligned room
    refine ⟨m', (F.widenNext post).narrow (.free (s + extent [.free t] - b)), ?_, rfl,
      ⟨tiled', ?_⟩, fun out => ?_, rfl⟩
    · simp only [extent_cons, extent_nil, add_zero, lo_widenNext, ← add_assoc] at run
      rw [← run]
      have e : sub32 (add32 t s) b = s + t - b := by
        rw [add32_eq (by omega), sub32_eq (by omega) (by omega), add_comm]
      simp only [sizes.1.sizeWord, sizes.2.1.sizeWord, e, ← ht,
        add32_eq (show F.lo + s + t < 2 ^ 32 by omega)]
      congr 1
      simp (disch := omega) only [size_setSize, size_setPreceding, size_setSize_same]
      rw [next₂.updatePreceding_eq (by simp (disch := omega)) (by omega) (by omega)]
    · have ev := evolve lay₂ (plug_narrow (F := F.widenNext post) ▸ tiled'.lay)
        (by simp; omega)
      rw [plug_narrow, ← widen]
      simpa using ev
    · exact (out.widenNext hpost).1.narrow (.inr (out.widenNext hpost).2)
  rw [if_neg (by rw [next.free_iff (by omega)]; exact free),
    if_pos (by rw [add32_eq (by simp only [sizeofMmFreenode]; omega)]; exact room)]
  have cut := Flux.cut lay flux (by simp) (by simp) hb room
  obtain ⟨m', run, tiled'⟩ := Flux.cut_listed lay (by simp) cut hb aligned room
  refine ⟨m', F.narrow (.free (s + extent [] - b)), ?_, rfl, ⟨tiled', ?_⟩,
    fun out => out.narrow (.inr free), rfl⟩
  · simp only [extent_nil, add_zero] at run
    rw [← run, sub32_eq (by omega) (by omega)]
    congr 1
    simp (disch := omega) only [size_setSize, size_setPreceding, size_setSize_same]
    have used : F.next.tag = 2 ^ 31 := by
      rcases F.next.tag_eq with h | h
      · exact absurd h.2 free
      · exact h.1
    rw [or_allocBit (by omega), used]
  · rw [plug_narrow] at tiled' ⊢
    simpa using evolve lay tiled'.lay (by simp; omega)

/-! ## Extending forwards -/

section Next

variable (lay : Layout nodelist (F.plug [.used s f, .free t]))
  (flux : Flux nodelist m (F.plug [.used s f, .free t]) {F.lo + s})

include lay flux

theorem Flux.growPart (hk : 16 ≤ k) (lt : k + 16 ≤ t) :
    ∃ g, (∀ i < s - 8, g i = f i) ∧
      Flux nodelist
        (updatePreceding (setPreceding (setSize (setSize m F.lo (s + k)) (F.lo + (s + k))
        (t - k)) (F.lo + (s + k)) (s + k)) (F.lo + s + t) (t - k))
        (F.plug [.used (s + k) g, .free (t - k)]) {F.lo + (s + k)} := by
  have bounds := bounds₂ lay
  have head := flux.window.1
  have tag := F.next.tag_cases
  simp only at bounds
  rw [flux.next₂.updatePreceding_eq (by simp (disch := omega)) (by simp only; omega) (by omega)]
  refine ⟨_, ?same, flux.retile lay (by simp) (by simp) (by simp; omega) (by simp; omega) ?_
    ⟨⟨?_, ?_, fun _ h i _ => by cases h; rfl⟩, ⟨?_, ?_, by simp⟩, trivial⟩ ?_⟩
  case same =>
    intro i hi
    rw [← head.payload f rfl i hi]
    simp (disch := omega) only [setSize, setPreceding, store32_off]
  · iterate 4 refine sameOff_store32 ?_ (by simp; omega)
    exact .refl _ m
  · simp (disch := omega)
  · rw [Chunk.tag_used, ← Chunk.tag_used s f, ← head.precedingWord]
    simp (disch := omega)
  · simp (disch := omega)
  · simp (disch := omega)
  · simp (disch := omega) [← add_assoc]

end Next

theorem reallocNext_spec (tiled : Tiled nodelist m (F.plug [.used s f]))
    (free : F.next.data = none) (hk : 16 ≤ k) (aligned : k % 16 = 0) (le : k ≤ F.next.size) :
    ∃ (m' : Memory) (F' : Focus) (g : ℕ → UInt8),
      reallocNext nodelist m F.lo (F.lo + s) s F.next.size k = some m' ∧ F'.lo = F.lo ∧
      (∀ i < s - 8, g i = f i) ∧ Replace nodelist F s f m' F' (s + k) g ∧ (F.Outer → F'.Outer) := by
  obtain ⟨lay, flux⟩ := tiled
  have bounds := bounds₁ lay
  obtain ⟨post, t, hpost, ht, widen, lay₂, loose⟩ := flux.takeNext lay free (by simp)
  have bounds₂ := bounds₂ lay₂
  simp only [lo_widenNext] at bounds₂
  rw [← ht] at le ⊢
  have node : size (setSize (freenode.unlink m (F.lo + s)) F.lo (s + k)) F.lo = s + k :=
    load32_store32_same _ (by omega)
  simp only [reallocNext, add32_eq (show F.lo + s + t < 2 ^ 32 by omega),
    add32_eq (show s + k < 2 ^ 32 by omega), node,
    add32_eq (show F.lo + (s + k) < 2 ^ 32 by omega), sub32_eq le (by omega)]
  by_cases part : k < t
  · rw [if_pos part]
    rw [insert_empty_eq] at loose
    obtain ⟨g, same, grown⟩ := loose.growPart lay₂ hk (by omega)
    have span : extent [Chunk.used (s + k) g, .free (t - k)] = extent [.used s f, .free t] := by
      simp
      omega
    have lay₃ := layout_plug lay₂ span (by simp; omega)
    obtain ⟨m', run, listed⟩ := grown.list (s := t - k) lay₃ (by simp)
    refine ⟨m', (F.widenNext post).narrow (.free (t - k)), g, ?_, rfl, same, ⟨?_, ?_⟩,
      fun out => ?_⟩
    · simp (disch := omega) only [size_setSize, size_setPreceding, size_setSize_same]
      exact run
    · rwa [plug_narrow]
    · rw [plug_narrow, ← widen]
      simpa using evolve lay₂ lay₃ span
    · exact (out.widenNext hpost).1.narrow (.inr (out.widenNext hpost).2)
  obtain rfl : k = t := by omega
  rw [if_neg part]
  have grown := loose.join lay₂ (by simp) (by simp)
  have lay₃ (g : ℕ → UInt8) : Layout nodelist ((F.widenNext post).plug [.used (s + k) g]) :=
    layout_plug lay₂ (by simp) (by simp; omega)
  refine ⟨_, F.widenNext post, _, rfl, rfl, fun i hi => ?_, ⟨⟨lay₃ _, grown⟩, ?_⟩,
    fun out => (out.widenNext hpost).1⟩
  · exact loose.window.1.payload f rfl i hi
  rw [← widen]
  simpa using evolve lay₂ (lay₃ _) (by simp)

/-! ## Extending backwards -/

theorem Flux.move (lay : Layout nodelist (F.plug [.used s f]))
    (flux : Flux nodelist m (F.plug [.used s f]) ∅) {n : ℕ} (fits : k + n + 8 ≤ s) :
    ∃ g, (∀ i < n, g i = f (k + i)) ∧
      Flux nodelist (memcpy m (F.lo + 8) (F.lo + 8 + k) n) (F.plug [.used s g]) ∅ := by
  have bounds := bounds₁ lay
  have head := flux.window.1
  have next := flux.next₁
  have same : SameOff (F.Writes [.used s f]) m (memcpy m (F.lo + 8) (F.lo + 8 + k) n) := by
    intro x hx
    refine memcpy_off m ?_
    simp only [Focus.Writes, extent_cons, extent_nil] at hx
    omega
  have keep {a : ℕ} (h : a + 4 ≤ F.lo + 8 ∨ F.lo + s ≤ a) :
      load32 (memcpy m (F.lo + 8) (F.lo + 8 + k) n) a = load32 m a :=
    load32_congr fun i hi => memcpy_off m (by omega)
  refine ⟨fun i => memcpy m (F.lo + 8) (F.lo + 8 + k) n (F.lo + 8 + i), fun i hi => ?_, ?_⟩
  · have moved : memcpy m (F.lo + 8) (F.lo + 8 + k) n (F.lo + 8 + i) = m (F.lo + 8 + k + i) :=
      memcpy_block m (.inl (by omega)) hi
    exact moved.trans (add_assoc _ k i ▸ head.payload f rfl (k + i) (by simp only; omega))
  refine flux.retile lay (by simp) (by simp) (by simp) rfl same ⟨⟨?_, ?_, ?_⟩, trivial⟩ ?_
  · exact (keep (by omega)).trans head.sizeWord
  · exact (keep (by omega)).trans head.precedingWord
  · rintro _ ⟨⟩ i -
    rfl
  · simp only [extent_cons, extent_nil, add_zero, lastSize_cons, lastSize_nil]
    exact (keep (by omega)).trans next.precedingWord

section Prev

variable (lay : Layout nodelist (F.plug [.free t, .used s f]))
  (flux : Flux nodelist m (F.plug [.free t, .used s f]) {F.lo})

include lay flux

theorem Flux.backPart (hk : 16 ≤ k) (lt : k + 16 ≤ t) :
    ∃ g, (∀ i < s - 8, g (k + i) = f i) ∧
      Flux nodelist (updatePreceding (setPreceding (setSize (setSize m F.lo (t - k))
        (F.lo + (t - k)) (s + k)) (F.lo + (t - k)) (t - k + 2 ^ 31)) (F.lo + t + s) (s + k))
        (F.plug [.free (t - k), .used (s + k) g]) {F.lo} := by
  have bounds := bounds₂ lay
  have head : preceding m F.lo = F.prevSize := flux.window.1.precedingWord
  have block := flux.window.2.1
  have tag := F.next.tag_cases
  simp only at bounds block
  rw [flux.next₂.updatePreceding_eq (by simp (disch := omega)) (by simp only; omega) (by omega)]
  refine ⟨_, ?same, flux.retile lay (by simp) (by simp) (by simp; omega) (by simp; omega) ?_
    ⟨⟨?_, ?_, by simp⟩, ⟨?_, ?_, fun _ h i _ => by cases h; rfl⟩, trivial⟩ ?_⟩
  case same =>
    intro i hi
    rw [← block.payload f rfl i hi, show F.lo + (t - k) + 8 + (k + i) = F.lo + t + 8 + i by omega]
    simp (disch := omega) only [setSize, setPreceding, store32_off]
  · iterate 4 refine sameOff_store32 ?_ (by simp; omega)
    exact .refl _ m
  · simp (disch := omega)
  · rw [Chunk.tag_free, add_zero, ← head]
    simp (disch := omega)
  · simp (disch := omega)
  · simp (disch := omega)
  · simp (disch := omega) [← add_assoc]

theorem Flux.backAll : ∃ g, (∀ i < s - 8, g (t + i) = f i) ∧
    Flux nodelist (updatePreceding (setPreceding (setSize m F.lo (t + s)) F.lo
      (F.prevSize + 2 ^ 31)) (F.lo + t + s) (t + s)) (F.plug [.used (t + s) g]) ∅ := by
  have bounds := bounds₂ lay
  have block := flux.window.2.1
  have tag := F.next.tag_cases
  simp only at bounds block
  rw [flux.next₂.updatePreceding_eq (by simp (disch := omega)) (by simp only; omega) (by omega)]
  refine ⟨_, ?same, flux.retile lay (by simp) (by simp) (by simp; omega) (by simp) ?_
    ⟨⟨?_, ?_, fun _ h i _ => by cases h; rfl⟩, trivial⟩ ?_⟩
  case same =>
    intro i hi
    rw [← block.payload f rfl i hi, show F.lo + 8 + (t + i) = F.lo + t + 8 + i by omega]
    simp (disch := omega) only [setSize, setPreceding, store32_off]
  · iterate 3 refine sameOff_store32 ?_ (by simp; omega)
    exact .refl _ m
  · simp (disch := omega)
  · simp (disch := omega)
  · simp (disch := omega) [← add_assoc]

end Prev

theorem reallocPrev_spec (tiled : Tiled nodelist m (F.plug [.used s f]))
    (free : F.prev.data = none) (hk : 16 ≤ k) (aligned : k % 16 = 0) (le : k ≤ F.prevSize) :
    ∃ (m' : Memory) (F' : Focus) (g : ℕ → UInt8),
      reallocPrev nodelist m (F.lo + 8) F.lo (F.lo - F.prevSize) (F.lo + s) s F.prevSize k =
        some (m', F'.lo, F'.lo + 8) ∧ F'.next = F.next ∧ F'.lo + k = F.lo ∧
      (∀ i < s - 8, g i = f i) ∧ Replace nodelist F s f m' F' (s + k) g ∧ (F.Outer → F'.Outer) := by
  obtain ⟨lay, flux⟩ := tiled
  have bounds := bounds₁ lay
  simp only at bounds
  obtain ⟨pre, hpre, lo, leLo, widen, lay₂, loose⟩ := flux.takePrev lay free (by simp)
  have bounds₂ := bounds₂ lay₂
  have sizes := loose.window
  rw [insert_empty_eq] at loose
  generalize F.prevSize = t at *
  generalize hG : F.widenPrev pre = G at *
  have lo' : F.lo = G.lo + t := by omega
  have gnext : G.next = F.next := by rw [← hG]; rfl
  rw [← lo] at loose sizes ⊢
  have node : sub32 F.lo k = G.lo + (t - k) := by
    rw [sub32_eq (by omega) (by omega)]
    omega
  have newmem : add32 (G.lo + (t - k)) sizeofMmAllocnode = G.lo + (t - k) + 8 :=
    add32_allocnode (by omega)
  have prevsize : size (freenode.unlink m G.lo) G.lo = t := sizes.1.sizeWord
  have prevprec : preceding (freenode.unlink m G.lo) G.lo = G.prevSize := sizes.1.precedingWord
  have count : sub32 s sizeofMmAllocnode = s - 8 :=
    sub32_eq (by simp only [sizeofMmAllocnode]; omega) (by omega)
  simp only [reallocPrev, node, newmem, count, prevsize, sub32_eq le (show t < 2 ^ 32 by omega),
    add32_eq (show s + k < 2 ^ 32 by omega)]
  by_cases part : k < t
  · rw [if_pos part]
    obtain ⟨g, same, grown⟩ := loose.backPart lay₂ hk (by omega)
    have span : extent [Chunk.free (t - k), .used (s + k) g] = extent [.free t, .used s f] := by
      simp
      omega
    have lay₃ := layout_plug lay₂ span (by simp; omega)
    obtain ⟨m₁, run, listed⟩ := grown.list (s := t - k) lay₃ (by simp)
    rw [← plug_narrowPrev] at lay₃ listed
    obtain ⟨g', same', moved⟩ := listed.flux.move (k := k) (n := s - 8) lay₃ (by omega)
    have lay₄ : Layout nodelist ((G.narrowPrev (.free (t - k))).plug [.used (s + k) g']) :=
      layout_plug lay₃ rfl (by simp; omega)
    refine ⟨_, G.narrowPrev (.free (t - k)), g', ?_, gnext, by simp; omega, fun i hi => ?_,
      ⟨⟨lay₄, moved⟩, ?_⟩, fun out => ?_⟩
    · simp (disch := omega) only [size_setSize, size_setPreceding, size_setSize_same]
      rw [or_allocBit (by omega), lo', run]
      simp only [bind_eq_bind, bind_some, lo_narrowPrev]
      rw [show G.lo + (t - k) + 8 + k = G.lo + t + 8 by omega]
      rfl
    · rw [same' i hi, same i hi]
    · rw [plug_narrowPrev] at lay₄ ⊢
      rw [← widen]
      simpa [lo'] using evolve lay₂ lay₄ (by simp; omega)
    have wide := out.widenPrev hpre
    rw [hG] at wide
    exact wide.1.narrowPrev (.inl wide.2)
  obtain rfl : k = t := by omega
  rw [if_neg part, Nat.sub_self, Nat.add_zero]
  obtain ⟨g, same, grown⟩ := loose.backAll lay₂
  have span : extent [Chunk.used (k + s) g] = extent [.free k, .used s f] := by simp
  have lay₃ := layout_plug lay₂ span (by simp; omega)
  obtain ⟨g', same', moved⟩ := grown.move (k := k) (n := s - 8) lay₃ (by omega)
  have lay₄ : Layout nodelist (G.plug [.used (k + s) g']) :=
    layout_plug lay₃ rfl (by simp; omega)
  rw [add_comm s k]
  refine ⟨_, G, g', ?_, gnext, lo'.symm, fun i hi => ?_, ⟨⟨lay₄, moved⟩, ?_⟩, fun out => ?_⟩
  · rw [prevsize, add32_eq (show k + s < 2 ^ 32 by omega)]
    simp (disch := omega) only [size_setPreceding, size_setSize_same]
    rw [preceding_setSize (by omega), prevprec, or_allocBit (by omega), lo']
    rw [show G.lo + k + 8 = G.lo + 8 + k by omega]
    rfl
  · rw [same' i hi, same i hi]
  · rw [← widen]
    simpa [lo'] using evolve lay₂ lay₄ (by simp)
  have wide := out.widenPrev hpre
  rw [hG] at wide
  exact wide.1

/-! ## Splitting at an alignment point -/

theorem Flux.splitFront (lay : Layout nodelist (F.plug [.used s f]))
    (flux : Flux nodelist m (F.plug [.used s f]) ∅) (hk : 16 ≤ k) (lt : k + 16 ≤ s) :
    ∃ g, Flux nodelist (updatePreceding (setPreceding (setSize (setPreceding (setSize m (F.lo + k)
        (s - k)) (F.lo + k) (k + 2 ^ 31)) F.lo k) F.lo F.prevSize) (F.lo + s) (s - k))
        (F.plug [.free k, .used (s - k) g]) {F.lo} := by
  have bounds := bounds₁ lay
  have tag := F.next.tag_cases
  simp only at bounds
  rw [flux.next₁.updatePreceding_eq (by simp (disch := omega)) (by simp only; omega) (by omega)]
  refine ⟨_, flux.retile lay (by simp) (by simp) (by simp; omega) (by simp; omega) ?_
    ⟨⟨?_, ?_, by simp⟩, ⟨?_, ?_, fun _ h i _ => by cases h; rfl⟩, trivial⟩ ?_⟩
  · refine sameOff_store32 ?_ (by simp)
    iterate 4 refine sameOff_store32 ?_ (by simp; omega)
    exact .refl _ m
  · simp (disch := omega)
  · simp (disch := omega)
  · simp (disch := omega)
  · simp (disch := omega)
  · exact load32_store32_same _ (by omega)

theorem memalignSplit_spec (tiled : Tiled nodelist m (F.plug [.used s f])) (hk : 16 ≤ k)
    (aligned : k % 16 = 0) (lt : k + 16 ≤ s) (alignment : ℕ) :
    ∃ (m' : Memory) (F' : Focus) (g : ℕ → UInt8),
      memalignSplit nodelist m F.lo (F.lo + 8 + k) alignment =
        some (m', F'.lo, F'.lo + 8, s - k - 8) ∧ F'.lo = F.lo + k ∧
      Replace nodelist F s f m' F' (s - k) g ∧ (F.Outer → F.prev.data ≠ none → F'.Outer) ∧
      F'.prev = .free k := by
  obtain ⟨lay, flux⟩ := tiled
  have bounds := bounds₁ lay
  have head := flux.window.1
  simp only at bounds
  obtain ⟨g, cut⟩ := flux.splitFront lay hk lt
  have span : extent [Chunk.free k, .used (s - k) g] = extent [.used s f] := by
    simp
    omega
  have lay₂ := layout_plug lay span (by simp; omega)
  obtain ⟨m', run, listed⟩ := cut.list (s := k) lay₂ (by simp)
  refine ⟨m', F.narrowPrev (.free k), g, ?_, by simp, ⟨?_, ?_⟩,
    fun out used => out.narrowPrev (.inl used), by simp [prev, narrowPrev]⟩
  · have size₀ : size m F.lo = s := head.sizeWord
    have node : sub32 (F.lo + 8 + k) sizeofMmAllocnode = F.lo + k := by
      rw [sub32_eq (by simp only [sizeofMmAllocnode]; omega) (by omega)]
      simp only [sizeofMmAllocnode]
      omega
    have front : sub32 (F.lo + k) F.lo = k := by
      rw [sub32_eq (by omega) (by omega)]
      omega
    have back : sub32 (F.lo + s) (F.lo + k) = s - k := by
      rw [sub32_eq (by omega) (by omega)]
      omega
    have avail : sub32 (s - k) sizeofMmAllocnode = s - k - 8 :=
      sub32_eq (by simp only [sizeofMmAllocnode]; omega) (by omega)
    have prec : preceding m F.lo = F.prevSize + (Chunk.used s f).tag := head.precedingWord
    simp only [memalignSplit, node, front, size₀, add32_eq (show F.lo + s < 2 ^ 32 by omega)]
    rw [if_neg (by simp only [sizeofMmFreenode]; omega)]
    simp (disch := omega) only [node, front, back, or_allocBit, preceding_setSize,
      preceding_setPreceding, prec, tagged_and_not, size_updatePreceding, size_setPreceding,
      size_setSize, size_setSize_same, avail, run, bind_eq_bind, bind_some,
      lo_narrowPrev]
    rw [show F.lo + 8 + k = F.lo + k + 8 by omega]
    rfl
  · rwa [plug_narrowPrev]
  · rw [plug_narrowPrev]
    simpa using evolve lay lay₂ span

end NuttxRtos.Heap
