import Mathlib.Algebra.Order.Ring.Int
import Mathlib.Data.List.Range

/-!
# Runs of places

A function on the integers seen as an array: reading a run of places, and replacing one by the
contents of a buffer.
-/

namespace Overlay

open List

variable {β : Type}

def slice (f : ℤ → β) (start : ℤ) (n : ℕ) : List β := (List.range n).map fun i : ℕ => f (start + i)

/-- `f` with the `n` places from `start` on taken from `buffer`. -/
def overlay (f : ℤ → β) (start : ℤ) (n : ℕ) (buffer : ℕ → β) : ℤ → β :=
  fun b => if start ≤ b ∧ b < start + n then buffer (b - start).toNat else f b

/-- `buffer` with the `n` places from `k` on taken from `source`. -/
def splice (buffer : ℕ → β) (k n : ℕ) (source : ℕ → β) : ℕ → β :=
  fun i => if k ≤ i ∧ i < k + n then source (i - k) else buffer i

variable {f g : ℤ → β} {start : ℤ} {n m i : ℕ} {buffer source : ℕ → β}

@[simp] theorem length_slice : (slice f start n).length = n := by
  simp [slice]

@[simp] theorem slice_zero : slice f start 0 = [] := rfl

theorem slice_append : slice f start n ++ slice f (start + n) m = slice f start (n + m) := by
  simp only [slice, range_add, map_append, map_map]
  congr 1
  apply map_congr_left
  intro i _
  simp [Int.add_assoc]

theorem slice_congr (same : ∀ i < n, f (start + (i : ℕ)) = g (start + (i : ℕ))) :
    slice f start n = slice g start n := by
  apply map_congr_left
  intro i hi
  exact same i (mem_range.1 hi)

theorem overlay_inside {b : ℤ} (low : start ≤ b) (high : b < start + n) :
    overlay f start n buffer b = buffer (b - start).toNat :=
  if_pos ⟨low, high⟩

theorem overlay_outside {b : ℤ} (outside : b < start ∨ start + n ≤ b) :
    overlay f start n buffer b = f b := by
  apply if_neg
  rintro ⟨low, high⟩
  omega

@[simp] theorem overlay_zero : overlay f start 0 buffer = f := by
  funext b
  exact overlay_outside (by omega)

theorem overlay_overlay :
    overlay (overlay f start n buffer) (start + n) m source =
      overlay f start (n + m) (splice buffer n m source) := by
  funext b
  by_cases below : b < start + n
  · rw [overlay_outside (.inl below)]
    by_cases inside : start ≤ b
    · rw [overlay_inside inside below, overlay_inside inside (by omega), splice, if_neg (by omega)]
    · rw [overlay_outside (by omega), overlay_outside (by omega)]
  by_cases inside : b < start + n + m
  · rw [overlay_inside (by omega) inside, overlay_inside (by omega) (by omega), splice,
      if_pos (by omega)]
    congr 1
    omega
  · rw [overlay_outside (by omega), overlay_outside (by omega), overlay_outside (by omega)]

end Overlay
