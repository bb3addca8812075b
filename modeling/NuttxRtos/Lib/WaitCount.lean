import Mathlib.Algebra.Order.Ring.Int
import Mathlib.Data.List.Nodup

/-! A list of waiting tasks, each of which waits for one object, and a counter at every object for
the tasks that wait for it. -/

namespace WaitCount

variable {τ κ : Type*} [DecidableEq κ]

structure Counted (l : List τ) (on : τ → Option κ) (count : κ → ℤ) : Prop where
  nodup : l.Nodup
  count_eq : ∀ k, count k = l.countP fun t => on t = some k

variable {l : List τ} {on : τ → Option κ} {count : κ → ℤ} {t : τ} {k : κ}

theorem countP_congr {on' : τ → Option κ} (same : ∀ t ∈ l, on' t = on t) (k : κ) :
    (l.countP fun t => on' t = some k) = l.countP fun t => on t = some k := by
  apply List.countP_congr
  intro t member
  simp [same t member]

variable (counted : Counted l on count)
include counted

theorem Counted.find_isSome (positive : 0 < count k) :
    ∃ t, l.find? (fun t => on t = some k) = some t ∧ t ∈ l ∧ on t = some k := by
  rw [counted.count_eq k] at positive
  obtain ⟨u, member, waits⟩ := List.countP_pos_iff.1 (Int.natCast_pos.1 positive)
  have found : (l.find? fun t => on t = some k).isSome := List.find?_isSome.2 ⟨u, member, waits⟩
  obtain ⟨t, found⟩ := Option.isSome_iff_exists.1 found
  exact ⟨t, found, List.mem_of_find?_eq_some found, by simpa using List.find?_some found⟩

variable [DecidableEq τ]

theorem Counted.update (absent : t ∉ l) (x : Option κ) :
    Counted l (Function.update on t x) count where
  nodup := counted.nodup
  count_eq := by
    intro j
    rw [counted.count_eq j]
    refine congrArg _ (countP_congr (fun u member => ?_) j).symm
    exact Function.update_of_ne (fun same : u = t => absent (same ▸ member)) _ _

theorem Counted.add (absent : t ∉ l) (pos : ℕ) :
    Counted (l.take pos ++ t :: l.drop pos) (Function.update on t (some k))
      (Function.update count k (count k + 1)) where
  nodup := by
    have perm : (l.take pos ++ t :: l.drop pos).Perm (t :: l) := by
      refine List.perm_middle.trans (.cons t ?_)
      rw [List.take_append_drop]
    exact perm.nodup_iff.2 (List.nodup_cons.2 ⟨absent, counted.nodup⟩)
  count_eq := by
    intro j
    have updated := (counted.update absent (some k)).count_eq j
    rw [List.countP_append, List.countP_cons, Nat.add_left_comm, ← Nat.add_assoc]
    rw [← List.take_append_drop pos l, List.countP_append] at updated
    by_cases same : j = k
    · subst same
      simp [updated]
      omega
    have other : k ≠ j := Ne.symm same
    simp [same, other, updated]
    omega

theorem Counted.remove (member : t ∈ l) (waits : on t = some k) :
    Counted (l.erase t) (Function.update on t none) (Function.update count k (count k - 1)) where
  nodup := counted.nodup.erase t
  count_eq := by
    intro j
    have absent : t ∉ l.erase t := counted.nodup.not_mem_erase
    have kept : ∀ u ∈ l.erase t, Function.update on t none u = on u := fun u in_u =>
      Function.update_of_ne (fun same : u = t => absent (same ▸ in_u)) _ _
    rw [countP_congr kept j]
    have whole : (l.countP fun u => on u = some j) =
        ((t :: l.erase t).countP fun u => on u = some j) :=
      (List.perm_cons_erase member).countP_eq _
    by_cases same : j = k
    · subst same
      simp [counted.count_eq, whole, waits]
    · have other : k ≠ j := Ne.symm same
      simp [same, counted.count_eq, whole, waits, other]

end WaitCount
