import Mathlib.Algebra.Order.Ring.Int

/-!
# Runs of values in a memory

`At mem start values` says that a memory has the values from a place on. `write` puts values into a
memory whose cells may also be unwritten, and two writes of which the second begins inside the first
or right behind it are one write.
-/

namespace Segment

open List

variable {β : Type}

/-- `mem` has `values` from `start` on. -/
def At (mem : ℕ → β) : ℕ → List β → Prop
  | _, [] => True
  | start, value :: values => mem start = value ∧ At mem (start + 1) values

instance decidableAt [DecidableEq β] (mem : ℕ → β) :
    ∀ (start : ℕ) (values : List β), Decidable (At mem start values)
  | _, [] => isTrue trivial
  | start, value :: values =>
    have := decidableAt mem (start + 1) values
    inferInstanceAs (Decidable (mem start = value ∧ At mem (start + 1) values))

variable (mem : ℕ → β) (start : ℕ)

@[simp] theorem at_nil : At mem start [] := trivial

@[simp] theorem at_cons (value : β) (values : List β) :
    At mem start (value :: values) ↔ mem start = value ∧ At mem (start + 1) values :=
  .rfl

theorem at_append (first second : List β) :
    At mem start (first ++ second) ↔ At mem start first ∧ At mem (start + first.length) second := by
  induction first generalizing start with
  | nil => simp
  | cons value first ih =>
    rw [cons_append, at_cons, ih, at_cons, length_cons, and_assoc, Nat.add_right_comm,
      Nat.add_assoc]

/-! ## Reads -/

def read (mem : ℕ → β) (start count : ℕ) : List β := (List.range count).map fun i => mem (start + i)

@[simp] theorem length_read (count : ℕ) : (read mem start count).length = count := by
  unfold read
  rw [length_map, length_range]

theorem read_succ (count : ℕ) :
    read mem start (count + 1) = mem start :: read mem (start + 1) count := by
  unfold read
  rw [range_succ_eq_map, map_cons, map_map, Nat.add_zero]
  simp only [Function.comp_def, Nat.succ_eq_add_one, Nat.add_right_comm, Nat.add_assoc]

theorem at_iff (values : List β) : At mem start values ↔ read mem start values.length = values := by
  induction values generalizing start with
  | nil => simp [read]
  | cons value values ih => rw [at_cons, ih, length_cons, read_succ, cons.injEq]

variable {mem start} {mem' : ℕ → β} {first second values : List β}

theorem At.read {count : ℕ} (held : At mem start values)
    (size : values.length = count) : Segment.read mem start count = values := by
  rw [at_iff, size] at held
  exact held

theorem At.eq (held : At mem start first) (held' : At mem start second)
    (same : first.length = second.length) : first = second := by
  rw [← held.read same, held'.read rfl]

theorem At.move {start' : ℕ} (held : At mem start values)
    (same : ∀ i < values.length, mem' (start' + i) = mem (start + i)) : At mem' start' values := by
  rw [at_iff] at held ⊢
  exact (map_congr_left fun i inside => same i (mem_range.1 inside)).trans held

theorem At.congr (held : At mem start values)
    (same : ∀ i, start ≤ i → i < start + values.length → mem' i = mem i) :
    At mem' start values :=
  held.move fun i inside => same _ (by omega) (by omega)

theorem at_getD (values : List β) (default : β) : At (fun i => values.getD i default) 0 values := by
  rw [at_iff]
  apply ext_getElem <;> simp +contextual [Segment.read]

/-! ## Writes -/

def write (mem : ℕ → Option β) (start : ℕ) (values : List β) : ℕ → Option β :=
  fun i => if start ≤ i ∧ i < start + values.length then values[i - start]? else mem i

/-- The values that were written at a run of places. -/
def Written (mem : ℕ → Option β) (start : ℕ) (values : List β) : Prop :=
  At mem start (values.map some)

instance [DecidableEq β] (mem : ℕ → Option β) (start : ℕ) (values : List β) :
    Decidable (Written mem start values) :=
  decidableAt mem start (values.map some)

variable {i next other : ℕ} (mem : ℕ → Option β)

theorem write_inside (low : start ≤ i) (high : i < start + values.length) :
    write mem start values i = values[i - start]? :=
  if_pos ⟨low, high⟩

theorem write_outside (outside : i < start ∨ start + values.length ≤ i) :
    write mem start values i = mem i := by
  apply if_neg
  rintro ⟨low, high⟩
  omega

theorem write_append (second : List β) (behind : next = start + first.length) :
    write (write mem start first) next second = write mem start (first ++ second) := by
  subst behind
  funext i
  by_cases before : i < start + first.length
  · rw [write_outside _ (.inl before)]
    by_cases low : start ≤ i
    · rw [write_inside _ low before, write_inside _ low (by rw [length_append]; omega),
        getElem?_append_left (by omega)]
    · rw [write_outside _ (.inl (by omega)), write_outside _ (.inl (by omega))]
  by_cases high : i < start + first.length + second.length
  · rw [write_inside _ (by omega) high, write_inside _ (by omega) (by rw [length_append]; omega),
      getElem?_append_right (by omega), Nat.sub_sub]
  · rw [write_outside _ (.inr (by omega)), write_outside _ (.inr (by omega)),
      write_outside _ (.inr (by rw [length_append]; omega))]

theorem write_comm (apart : start + first.length ≤ other ∨ other + second.length ≤ start) :
    write (write mem start first) other second = write (write mem other second) start first := by
  funext i
  by_cases inside : start ≤ i ∧ i < start + first.length
  · rw [write_outside _ (by omega), write_inside _ inside.1 inside.2,
      write_inside _ inside.1 inside.2]
  by_cases inside' : other ≤ i ∧ i < other + second.length
  · rw [write_inside _ inside'.1 inside'.2, write_outside _ (by omega),
      write_inside _ inside'.1 inside'.2]
  · rw [write_outside _ (by omega), write_outside _ (by omega), write_outside _ (by omega),
      write_outside _ (by omega)]

theorem written_append (start : ℕ) (first second : List β) : Written mem start (first ++ second) ↔
      Written mem start first ∧ Written mem (start + first.length) second := by
  unfold Written
  rw [map_append, at_append, length_map]

theorem written_write (start : ℕ) (values : List β) :
    Written (write mem start values) start values := by
  unfold Written
  rw [at_iff]
  apply ext_getElem <;> simp +contextual [read, write]

variable {mem}

theorem Written.write {new : List β} (held : Written mem start values)
    (apart : start + values.length ≤ other ∨ other + new.length ≤ start) :
    Written (write mem other new) start values := by
  apply At.congr held
  intro i low high
  rw [length_map] at high
  exact write_outside mem (by omega)

theorem written_write_append (behind : next = start + first.length) :
    Written (Segment.write mem next second) start (first ++ second) ↔ Written mem start first := by
  subst behind
  rw [written_append, and_iff_left (written_write mem _ second)]
  refine ⟨fun held => At.congr held fun i low high => ?_,
    fun held => held.write (.inl (Nat.le_refl _))⟩
  rw [length_map] at high
  exact (write_outside mem (.inl high)).symm

theorem Written.eq (held : Written mem start first) (held' : Written mem start second)
    (same : first.length = second.length) : first = second := by
  have equal := At.eq held held' (by simpa using same)
  exact (map_inj_right fun _ _ => Option.some.inj).mp equal

end Segment
