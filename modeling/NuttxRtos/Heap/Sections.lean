import NuttxRtos.Heap.Resize

/-!
# The critical sections of `mm_realloc` and `mm_memalign`

Each section takes one block and ends with one block in its place (`Replace`), or leaves the heap as
it is. The request sizes here are whole chunk sizes: multiples of the granule that leave room for
the header.
-/

namespace NuttxRtos.Heap

open Memory Word Option Focus

variable {nodelist : ℕ} {m : Memory} {F : Focus} {s n : ℕ} {f : ℕ → UInt8}

/-! ## `mm_realloc` -/

theorem reallocTake_spec {needed : ℕ} (prevsize nextsize : ℕ) (pos : 0 < needed)
    (small : needed < 2 ^ 32) (enough : needed ≤ nextsize + prevsize) :
    (reallocTake needed prevsize nextsize).1 ≤ prevsize ∧
    (reallocTake needed prevsize nextsize).2 ≤ nextsize ∧
    (reallocTake needed prevsize nextsize).1 + (reallocTake needed prevsize nextsize).2 = needed ∧
    (needed % 16 = 0 ∧ prevsize % 16 = 0 ∧ nextsize % 16 = 0 →
      (reallocTake needed prevsize nextsize).1 % 16 = 0 ∧
      (reallocTake needed prevsize nextsize).2 % 16 = 0) := by
  unfold reallocTake
  split_ifs with h₁ h₂ h₃ h₄
  · rw [sub32_eq (by omega) small]
    omega
  · omega
  · rw [sub32_eq (by omega) small]
    omega
  · omega
  · omega

variable {prevsize k nextsize j : ℕ}

section

variable (tiled : Tiled nodelist m (F.plug [.used s f]))
include tiled

theorem Replace.refl : Replace nodelist F s f m F s f :=
  ⟨tiled, Evolve.refl (Set.singleton_subset_iff.2
    ⟨at_plug.2 (.inr (List.mem_singleton_self _)), by simp⟩)⟩

theorem reallocPrev_opt
    (hp : prevsize = if F.prev.data = none then F.prevSize else 0) (le : k ≤ prevsize)
    (aligned : k % 16 = 0) :
    ∃ (m' : Memory) (F' : Focus) (g : ℕ → UInt8), (if k ≠ 0 then
        reallocPrev nodelist m (F.lo + 8) F.lo (F.lo - F.prevSize) (F.lo + s) s prevsize k
        else some (m, F.lo, F.lo + 8)) = some (m', F'.lo, F'.lo + 8) ∧ F'.next = F.next ∧
      F'.lo + k = F.lo ∧ (∀ i < s - 8, g i = f i) ∧ Replace nodelist F s f m' F' (s + k) g ∧
      (F.Outer → F'.Outer) := by
  by_cases zero : k = 0
  · subst zero
    exact ⟨m, F, f, by simp, rfl, rfl, fun _ _ => rfl, Replace.refl tiled, id⟩
  have free : F.prev.data = none := by
    by_contra used
    rw [if_neg used] at hp
    omega
  rw [if_pos free] at hp
  rw [if_pos zero, hp]
  exact reallocPrev_spec tiled free (by omega) aligned (hp ▸ le)

theorem reallocNext_opt
    (hn : nextsize = if F.next.data = none then F.next.size else 0) (le : k ≤ nextsize)
    (aligned : k % 16 = 0) :
    ∃ (m' : Memory) (F' : Focus) (g : ℕ → UInt8),
      (if k ≠ 0 then reallocNext nodelist m F.lo (F.lo + s) s nextsize k else some m) =
        some m' ∧ F'.lo = F.lo ∧ (∀ i < s - 8, g i = f i) ∧
      Replace nodelist F s f m' F' (s + k) g ∧ (F.Outer → F'.Outer) := by
  by_cases zero : k = 0
  · subst zero
    exact ⟨m, F, f, by simp, rfl, fun _ _ => rfl, Replace.refl tiled, id⟩
  have free : F.next.data = none := by
    by_contra used
    rw [if_neg used] at hn
    omega
  rw [if_pos free] at hn
  rw [if_pos zero, hn]
  exact reallocNext_spec tiled free (by omega) aligned (hn ▸ le)

end

theorem Focus.sides_bounds (lay : Layout nodelist (F.plug [.used s f]))
    (hp : prevsize = if F.prev.data = none then F.prevSize else 0)
    (hn : nextsize = if F.next.data = none then F.next.size else 0) :
    prevsize % 16 = 0 ∧ nextsize % 16 = 0 ∧ nextsize + prevsize + s < 2 ^ 31 := by
  have ok := lay.ok _ region_mem
  have tagged := ok.tagged
  have prev16 : prevsize % 16 = 0 ∧ prevsize ≤ extent F.pre := by
    split_ifs at hp with free
    · obtain ⟨pre, hpre⟩ := F.exists_pre free
      have := ok.sizes (.free F.prevSize) (by simp [region, hpre])
      have e : extent F.pre = extent pre + F.prevSize := by
        simpa using congrArg extent hpre
      simp only at this
      omega
    · omega
  have next16 : nextsize % 16 = 0 ∧ nextsize ≤ extent F.post := by
    split_ifs at hn with free
    · obtain ⟨post, hpost⟩ := F.exists_post free
      have := ok.sizes (.free F.next.size) (by simp [region, hpost])
      have e : extent F.post = F.next.size + extent post := by
        simpa using congrArg extent hpost
      simp only at this
      omega
    · omega
  simp only [region, extent_append, extent_cons, extent_nil] at tagged
  omega

/-- The critical section of `mm_realloc`: the block is resized, perhaps elsewhere, or it cannot be
extended in place and nothing happens. -/
theorem reallocSection_spec (tiled : Tiled nodelist m (F.plug [.used s f])) (hn : 16 ≤ n)
    (aligned : n % 16 = 0) (small : n < 2 ^ 32) :
    (∃ (m' : Memory) (F' : Focus) (g : ℕ → UInt8),
      reallocSection nodelist m (F.lo + 8) n = some (m', .done (F'.lo + 8)) ∧
      (∀ i, i < s - 8 → i < n - 8 → g i = f i) ∧ Replace nodelist F s f m' F' n g ∧
      (F.Outer → F'.Outer)) ∨
    reallocSection nodelist m (F.lo + 8) n = some (m, .move s) ∧ s < n := by
  have bounds := bounds₁ tiled.lay
  have head := tiled.flux.window.1
  have next := tiled.flux.next₁
  obtain ⟨leLo, q, hq, prev⟩ := tiled.flux.prev tiled.lay
  have size₀ : size m F.lo = s := head.sizeWord
  have prec₀ : preceding m F.lo &&& not32 mmAllocBit = F.prevSize := by
    rw [head.precedingWord, tagged_and_not (by omega)]
  simp only at bounds next
  have nextfree := next.free_iff (by omega)
  have prevfree := prev.free_iff hq
  have node := sub32_allocnode (show F.lo + 8 < 2 ^ 32 by omega)
  simp only [reallocSection, node, size₀, prec₀, sub32_eq leLo (by omega),
    add32_eq (show F.lo + s < 2 ^ 32 by omega), nextfree, prevfree, next.sizeWord,
    prev.sizeWord, prev_size]
  by_cases shrink : n ≤ s
  · rw [if_pos shrink]
    rcases eq_or_lt_of_le shrink with rfl | lt
    · rw [if_neg (by omega)]
      exact .inl ⟨m, F, f, rfl, fun _ _ _ => rfl, Replace.refl tiled, id⟩
    obtain ⟨m', F', run, lo, rep, out, -⟩ := mmShrinkchunk_spec tiled hn aligned lt
    rw [if_pos lt, run]
    exact .inl ⟨m', F', f, by rw [lo]; rfl, fun _ _ _ => rfl, rep, out⟩
  rw [if_neg shrink]
  generalize hP : (if F.prev.data = none then F.prevSize else 0) = prevsize
  generalize hN : (if F.next.data = none then F.next.size else 0) = nextsize
  have sides := sides_bounds tiled.lay hP.symm hN.symm
  rw [add32_eq (show nextsize + prevsize < 2 ^ 32 by omega), add32_eq (by omega),
    sub32_eq (show s ≤ n by omega) small]
  by_cases fits : n ≤ nextsize + prevsize + s
  · rw [if_pos fits]
    left
    obtain ⟨le₁, le₂, sum, mod⟩ := reallocTake_spec prevsize nextsize
      (show 0 < n - s by omega) (by omega) (by omega)
    obtain ⟨mod₁, mod₂⟩ := mod (by omega)
    obtain ⟨m₁, F₁, g₁, run₁, next₁, lo₁, same₁, rep₁, out₁⟩ :=
      reallocPrev_opt tiled hP.symm le₁ mod₁
    obtain ⟨m₂, F₂, g₂, run₂, lo₂, same₂, rep₂, out₂⟩ :=
      reallocNext_opt rep₁.tiled (by rw [next₁]; exact hN.symm) le₂ mod₂
    have size₁ : size m₁ F₁.lo = s + (reallocTake (n - s) prevsize nextsize).1 :=
      rep₁.tiled.flux.window.1.sizeWord
    have hi : F₁.lo + (s + (reallocTake (n - s) prevsize nextsize).1) = F.lo + s := by omega
    rw [hi] at run₂
    rw [show s + (reallocTake (n - s) prevsize nextsize).1 +
      (reallocTake (n - s) prevsize nextsize).2 = n by omega] at rep₂
    refine ⟨m₂, F₂, g₂, ?_, fun i hi _ => ?_, rep₁.trans rep₂, fun out => out₂ (out₁ out)⟩
    · simp only [run₁, bind_eq_bind, bind_some, size₁, run₂, lo₂]
      rfl
    · rw [same₂ i (by omega), same₁ i hi]
  · rw [if_neg fits]
    exact .inr ⟨rfl, by omega⟩

/-! ## `mm_memalign` -/

theorem alignUp_spec (raw : ℕ) (hj : 4 ≤ j) (j32 : j < 32) (aligned : raw % 16 = 0)
    (fits : raw + 2 ^ j < 2 ^ 32) :
    ∃ k, add32 raw (sub32 (2 ^ j) 1) &&& not32 (sub32 (2 ^ j) 1) = raw + k ∧ k < 2 ^ j ∧
      k % 16 = 0 ∧ (raw + k) % 2 ^ j = 0 := by
  have pos : 0 < 2 ^ j := Nat.two_pow_pos j
  rw [sub32_eq Nat.one_le_two_pow (by omega), add32_eq (by omega), and_not32_mask (by omega) j32.le]
  have dvd : 2 ^ j ∣ raw + (2 ^ j - 1) - (raw + (2 ^ j - 1)) % 2 ^ j := Nat.dvd_sub_mod _
  have dvd16 : 16 ∣ raw + (2 ^ j - 1) - (raw + (2 ^ j - 1)) % 2 ^ j :=
    (pow_dvd_pow 2 hj).trans dvd
  refine ⟨raw + (2 ^ j - 1) - (raw + (2 ^ j - 1)) % 2 ^ j - raw, ?_, ?_, ?_, ?_⟩
  · omega
  · omega
  · omega
  · rw [Nat.add_sub_cancel' (by omega)]
    exact Nat.mod_eq_zero_of_dvd dvd

theorem mmAlignUp_eq {a : ℕ} (h : a + 15 < 2 ^ 32) : mmAlignUp a = (a + 15) / 16 * 16 := by
  have mask : mmGranMask = 2 ^ 4 - 1 := rfl
  rw [mmAlignUp, mask, add32_eq (by omega), and_not32_mask (by omega) (by omega)]
  omega

/-- The critical section of `mm_memalign` on a block that is large enough for every alignment
point: the block at the first one remains. -/
theorem memalignSection_spec (tiled : Tiled nodelist m (F.plug [.used s f])) {bytes : ℕ}
    (hj : 5 ≤ j) (j32 : j < 32) (aligned : bytes % 16 = 0) (room : bytes + 2 * 2 ^ j + 16 ≤ s) :
    ∃ (m' : Memory) (F' : Focus) (g : ℕ → UInt8) (k : ℕ),
      memalignSection nodelist m (2 ^ j) bytes (bytes + 2 * 2 ^ j) (F.lo + 8) =
        some (m', F'.lo + 8) ∧ (F'.lo + 8) % 2 ^ j = 0 ∧ F'.lo = F.lo + k ∧
      Replace nodelist F s f m' F' (bytes + 16) g ∧
      (F.Outer → k = 0 ∨ F.prev.data ≠ none → F'.Outer) ∧ (k = 0 ∨ 16 ≤ k ∧ F'.prev = .free k) := by
  have bounds := bounds₁ tiled.lay
  simp only at bounds
  have pow : 32 ≤ 2 ^ j := Nat.pow_le_pow_right (n := 2) (by omega) hj
  obtain ⟨k, round, lt, mod, dvd⟩ := alignUp_spec (F.lo + 8) (by omega) j32 (by omega)
    (by omega)
  have up : mmAlignUp (add32 bytes sizeofMmAllocnode) = bytes + 16 := by
    rw [add32_allocnode (by omega), mmAlignUp_eq (by omega)]
    omega
  simp only [memalignSection, sub32_allocnode (show F.lo + 8 < 2 ^ 32 by omega), round, up]
  by_cases zero : k = 0
  · subst zero
    obtain ⟨m', F', run, lo, rep, out, -⟩ := mmShrinkchunk_spec (b := bytes + 16) tiled
      (by omega) (by omega) (by omega)
    refine ⟨m', F', f, 0, ?_, by rw [lo]; exact dvd, lo, rep, fun h _ => out h, .inl rfl⟩
    simp only [add_zero, ne_eq, not_true_eq_false, if_false, bind_eq_bind, bind_some]
    rw [if_pos (by omega), run, lo]
    rfl
  obtain ⟨m₁, F₁, g, run₁, lo₁, rep₁, out₁, prev₁⟩ := memalignSplit_spec tiled (k := k) (by omega)
    mod (by omega) (2 ^ j)
  obtain ⟨m₂, F₂, run₂, lo₂, rep₂, out₂, prev₂⟩ := mmShrinkchunk_spec (b := bytes + 16) rep₁.tiled
    (by omega) (by omega) (by omega)
  refine ⟨m₂, F₂, g, k, ?_, ?_, lo₂.trans lo₁, rep₁.trans rep₂, fun h used => ?_,
    .inr ⟨by omega, prev₂.trans prev₁⟩⟩
  · rw [if_pos (by omega), run₁]
    simp only [bind_eq_bind, bind_some]
    rw [if_pos (by omega), run₂, lo₂]
    rfl
  · rw [lo₂, lo₁, show F.lo + k + 8 = F.lo + 8 + k by omega]
    exact dvd
  · exact out₂ (out₁ h (used.resolve_left zero))

end NuttxRtos.Heap
