import Mathlib.Algebra.Order.Ring.Int

/-!
# Ring buffers

A ring has one slot more than it holds elements: it is empty when its two indices are equal, and
full when they would be after one more element.
-/

namespace NuttxRtos

open List

structure Ring (α : Type) where
  size : ℕ
  head : ℕ
  tail : ℕ
  buffer : ℕ → α
  head_lt : head < size
  tail_lt : tail < size

namespace Ring

variable {α : Type} (ring : Ring α)

def next (i : ℕ) : ℕ := if ring.size ≤ i + 1 then 0 else i + 1

theorem next_lt (i : ℕ) : ring.next i < ring.size := by
  have := ring.head_lt
  unfold next
  split <;> omega

def Full : Prop := ring.next ring.head = ring.tail

def Empty : Prop := ring.head = ring.tail

instance : Decidable ring.Full := inferInstanceAs (Decidable (_ = _))

instance : Decidable ring.Empty := inferInstanceAs (Decidable (_ = _))

def put (a : α) : Ring α :=
  { ring with
    buffer := Function.update ring.buffer ring.head a
    head := ring.next ring.head
    head_lt := ring.next_lt _ }

def first : α := ring.buffer ring.tail

def drop : Ring α := { ring with tail := ring.next ring.tail, tail_lt := ring.next_lt _ }

/-! ## The elements of a ring -/

def count : ℕ := if ring.tail ≤ ring.head then ring.head - ring.tail else
  ring.head + ring.size - ring.tail

def slot (i : ℕ) : ℕ := if ring.tail + i < ring.size then ring.tail + i else
  ring.tail + i - ring.size

def contents : List α := (range ring.count).map fun i => ring.buffer (ring.slot i)

variable {ring}

theorem contents_empty (empty : ring.Empty) : ring.contents = [] := by
  simp [contents, count, show ring.head = ring.tail from empty]

theorem contents_put (room : ¬ ring.Full) (a : α) :
    (ring.put a).contents = ring.contents ++ [a] := by
  have head := ring.head_lt
  have tail := ring.tail_lt
  have count : (ring.put a).count = ring.count + 1 := by
    simp only [Full, next, put, Ring.count] at *
    grind
  have last : ring.slot ring.count = ring.head := by
    simp only [slot, Ring.count]
    grind
  rw [contents, count, range_succ, map_append, contents]
  congr 1
  · apply map_congr_left
    intro i mem
    have : ring.slot i ≠ ring.head := by
      simp only [slot, Ring.count, mem_range] at *
      grind
    exact Function.update_of_ne this ..
  · exact congrArg (fun x => [x]) ((congrArg _ last).trans (Function.update_self ..))

theorem contents_drop (nonempty : ¬ ring.Empty) :
    ring.contents = ring.first :: ring.drop.contents := by
  have head := ring.head_lt
  have tail := ring.tail_lt
  have count : ring.count = ring.drop.count + 1 := by
    simp only [Empty, next, drop, Ring.count] at *
    grind
  rw [contents, count, range_succ_eq_map, map_cons, map_map, contents]
  congr 1
  · simp [slot, first, tail]
  · apply map_congr_left
    intro i mem
    have : ring.slot (i + 1) = ring.drop.slot i := by
      simp only [slot, next, drop, Ring.count, mem_range] at *
      grind
    exact congrArg ring.buffer this

end Ring
end NuttxRtos
