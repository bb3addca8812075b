import NuttxRtos.Heap.Window

/-!
# Freeing

`mm_free` clears the mark of a block, merges the following and the preceding chunk into it when they
are free, and lists the result. Each of the steps refills a window.
-/

namespace NuttxRtos.Heap

open Memory Word Focus

variable {nodelist : ℕ} {m : Memory} {F : Focus} {s t : ℕ} {f : ℕ → UInt8}

theorem Flux.clearMark (lay : Layout nodelist (F.plug [.used s f]))
    (flux : Flux nodelist m (F.plug [.used s f]) ∅) :
    Flux nodelist (setPreceding m F.lo (preceding m F.lo &&& not32 mmAllocBit))
      (F.plug [.free s]) {F.lo} := by
  have bounds := bounds₁ lay
  have head := flux.window.1
  have next := flux.next₁
  simp only at bounds next
  rw [head.precedingWord, tagged_and_not (by omega)]
  refine flux.retile lay (by simp) (by simp) (by simp; omega) rfl ?_ ⟨⟨?_, ?_, by simp⟩, trivial⟩ ?_
  · exact sameOff_store32 (.refl _ m) (by simp; omega)
  · simpa (disch := omega) using head.sizeWord
  · simp (disch := omega)
  · simpa (disch := omega) using next.precedingWord

section

variable (lay : Layout nodelist (F.plug [.free s]))
  (flux : Flux nodelist m (F.plug [.free s]) {F.lo})
include lay flux

theorem freeMergeNext_spec :
    ∃ (m' : Memory) (F' : Focus) (s' : ℕ), freeMergeNext m F.lo = (m', F'.lo + s') ∧
      F'.lo = F.lo ∧ Layout nodelist (F'.plug [.free s']) ∧
      Flux nodelist m' (F'.plug [.free s']) {F'.lo} ∧
      Evolve (F.plug [.free s]) (F'.plug [.free s']) ∅ ∅ ∧
      (F.Outer → F'.Outer ∧ F'.next.data ≠ none) := by
  have bounds := bounds₁ lay
  have head : size m F.lo = s := flux.window.1.sizeWord
  have next := flux.next₁
  simp only at bounds next
  simp only [freeMergeNext, head, add32_eq (show F.lo + s < 2 ^ 32 by omega), next.sizeWord]
  by_cases free : F.next.data = none
  · rw [if_pos ((next.free_iff (by omega)).2 free)]
    obtain ⟨post, t, hpost, ht, widen, lay₂, loose⟩ := flux.takeNext lay free (by simp; omega)
    have bounds₂ := bounds₂ lay₂
    have sizes := loose.window
    simp only [headers_cons, lo_widenNext] at bounds₂ sizes
    have merged := loose.join lay₂ (by simp) (by simp)
    have span : extent [Chunk.free (s + t)] = extent [.free s, .free t] := by simp
    have lay' := layout_plug lay₂ span (by simp; omega)
    refine ⟨_, F.widenNext post, s + t, ?_, rfl, lay', merged, ?_, fun out => ?_⟩
    · simp only [sizes.1.sizeWord, sizes.2.1.sizeWord, ← ht, lo_widenNext,
        add32_eq (show s + t < 2 ^ 32 by omega), add32_eq (show F.lo + s + t < 2 ^ 32 by omega)]
      simp (disch := omega) only [size_setSize_same, add_assoc]
    · rw [← widen]
      simpa using evolve lay₂ lay' span
    · exact out.widenNext hpost
  · rw [if_neg (by rw [next.free_iff (by omega)]; exact free)]
    exact ⟨m, F, s, rfl, rfl, lay, flux, Evolve.refl (by simp), fun out => ⟨out, free⟩⟩

theorem freeMergePrev_spec :
    ∃ (m' : Memory) (F' : Focus) (s' : ℕ), freeMergePrev m F.lo (F.lo + s) = (m', F'.lo) ∧
      Layout nodelist (F'.plug [.free s']) ∧ Flux nodelist m' (F'.plug [.free s']) {F'.lo} ∧
      Evolve (F.plug [.free s]) (F'.plug [.free s']) ∅ ∅ ∧
      (F.Outer ∧ F.next.data ≠ none → F'.Outer ∧ F'.prev.data ≠ none ∧ F'.next.data ≠ none) := by
  have bounds := bounds₁ lay
  have head : preceding m F.lo = F.prevSize := flux.window.1.precedingWord
  obtain ⟨le, q, hq, prev⟩ := flux.prev lay
  simp only [freeMergePrev, head, sub32_eq le (by omega)]
  by_cases free : F.prev.data = none
  · rw [if_pos ((prev.free_iff hq).2 free)]
    have pos := prevSize_pos lay
    obtain ⟨pre, hpre, lo, le, widen, lay₂, loose⟩ := flux.takePrev lay free (by simp; omega)
    have bounds₂ := bounds₂ lay₂
    have sizes := loose.window
    simp only [headers_cons, lo, Nat.sub_add_cancel le] at bounds₂ sizes
    rw [Set.pair_comm, ← lo, show F.lo = (F.widenPrev pre).lo + F.prevSize by omega] at loose
    have merged := loose.join lay₂ (by simp) (by simp)
    have span : extent [Chunk.free (F.prevSize + s)] = extent [.free F.prevSize, .free s] := by simp
    have lay' := layout_plug lay₂ span (by simp; omega)
    refine ⟨_, F.widenPrev pre, F.prevSize + s, ?_, lay', merged, ?_, fun out => ?_⟩
    · simp only [sizes.1.sizeWord, sizes.2.1.sizeWord, lo, Nat.sub_add_cancel le,
        add32_eq (show F.prevSize + s < 2 ^ 32 by omega)]
      simp (disch := omega) only [size_setSize_same]
    · rw [← widen]
      simpa using evolve lay₂ lay' span
    · exact ⟨(out.1.widenPrev hpre).1, (out.1.widenPrev hpre).2, out.2⟩
  · rw [if_neg (by rw [prev.free_iff hq]; exact free)]
    exact ⟨m, F, s, rfl, lay, flux, Evolve.refl (by simp), fun out => ⟨out.1, free, out.2⟩⟩

end

theorem freeSection_spec {rs : List Region} (tiled : Tiled nodelist m rs) {x : ℕ}
    (hx : At rs x (.used s f)) :
    ∃ m' rs', freeSection nodelist m (x + 8) = some m' ∧ Tiled nodelist m' rs' ∧
      Evolve rs rs' {(x, .used s f)} ∅ ∧ (Coalesced rs → Coalesced rs') := by
  obtain ⟨F, rfl, rfl⟩ := exists_plug hx
  have bounds := bounds₁ tiled.lay
  simp only at bounds
  have lay₀ : Layout nodelist (F.plug [.free s]) :=
    layout_plug tiled.lay rfl (by simp; omega)
  have cleared := tiled.flux.clearMark tiled.lay
  have gone := evolve tiled.lay lay₀ rfl
  simp only [placedBlocks_used, placedBlocks_free, placedBlocks_nil, insert_empty_eq] at gone
  obtain ⟨m₁, F₁, s₁, run₁, lo₁, lay₁, flux₁, ev₁, out₁⟩ := freeMergeNext_spec lay₀ cleared
  obtain ⟨m₂, F₂, s₂, run₂, lay₂, flux₂, ev₂, out₂⟩ := freeMergePrev_spec lay₁ flux₁
  obtain ⟨m₃, run₃, tiled₃⟩ := flux₂.list lay₂ (List.mem_singleton_self _)
  refine ⟨m₃, F₂.plug [.free s₂], ?_, tiled₃, (gone.trans ev₁).trans ev₂, fun co => ?_⟩
  · simp only [freeSection, sub32_allocnode (show F.lo + 8 < 2 ^ 32 by omega), run₁]
    rw [← lo₁]
    simp only [run₂, run₃]
  · obtain ⟨out, left, right⟩ := out₂ (out₁ (outer co))
    exact out.plug (List.isChain_singleton _) (.inl left) (.inr right)

end NuttxRtos.Heap
