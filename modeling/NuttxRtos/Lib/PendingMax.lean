import Mathlib.Algebra.Order.Ring.Int
import Mathlib.Data.List.Perm.Basic
import Mathlib.Order.Nat

/-!
# A maximum with the values below it

Of a collection of numbers only those above a floor are kept: the largest on its own, the others in
a list without an order. When the collection has none above the floor, the floor stands for the
largest.
-/

namespace PendingMax

open List

/-- `top` and `rest` are the numbers of `all` above the `floor`. -/
structure Represents (floor top : ℕ) (rest all : List ℕ) : Prop where
  floor_le : floor ≤ top
  rest_le : ∀ q ∈ rest, q ≤ top
  empty : top = floor → rest = []
  perm : (all.filter fun q => floor < q).Perm (if top = floor then [] else top :: rest)

variable {floor top p : ℕ} {rest rest' all all' : List ℕ}

theorem Represents.congr (rep : Represents floor top rest all) (same : all.Perm all') :
    Represents floor top rest all' :=
  ⟨rep.floor_le, rep.rest_le, rep.empty, (same.filter _).symm.trans rep.perm⟩

theorem Represents.idle (low : ∀ q ∈ all, q ≤ floor) : Represents floor floor [] all := by
  refine ⟨le_refl floor, by simp, fun _ => rfl, ?_⟩
  rw [if_pos rfl, perm_nil, filter_eq_nil_iff]
  intro q member
  simpa using low q member

section

variable (rep : Represents floor top rest all)
include rep

theorem Represents.le_top (member : p ∈ all) : p ≤ top := by
  by_cases high : floor < p
  · have kept : p ∈ all.filter fun q => floor < q := mem_filter.2 ⟨member, by simpa using high⟩
    have inside := rep.perm.mem_iff.1 kept
    split at inside
    · cases inside
    cases mem_cons.1 inside with
    | inl same => exact le_of_eq same
    | inr rest => exact rep.rest_le p rest
  · exact le_trans (not_lt.1 high) rep.floor_le

theorem Represents.top_mem (above : top ≠ floor) : top ∈ all := by
  have perm := rep.perm
  rw [if_neg above] at perm
  exact mem_of_mem_filter (perm.mem_iff.2 mem_cons_self)

/-! ## Adding a number -/

theorem Represents.add_low (low : p ≤ floor) : Represents floor top rest (p :: all) := by
  refine ⟨rep.floor_le, rep.rest_le, rep.empty, ?_⟩
  rw [filter_cons_of_neg (by simpa using low)]
  exact rep.perm

/-- The new number is the largest, and the old largest joins the rest if it was above the floor. -/
theorem Represents.add_top (high : top < p) :
    Represents floor p (if floor < top then rest ++ [top] else rest) (p :: all) := by
  have above : floor < p := lt_of_le_of_lt rep.floor_le high
  have perm := rep.perm
  refine ⟨above.le, fun q member => ?_, fun same => absurd same (by omega), ?_⟩
  · split at member
    · cases mem_append.1 member with
      | inl inside => exact le_of_lt (lt_of_le_of_lt (rep.rest_le q inside) high)
      | inr last => exact le_of_lt (mem_singleton.1 last ▸ high)
    · exact le_of_lt (lt_of_le_of_lt (rep.rest_le q member) high)
  rw [filter_cons_of_pos (by simpa using above), if_neg (by omega)]
  refine .cons p (perm.trans ?_)
  by_cases boosted : floor < top
  · rw [if_neg (by omega), if_pos boosted]
    exact (perm_append_singleton top rest).symm
  · have same : top = floor := le_antisymm (not_lt.1 boosted) rep.floor_le
    rw [if_pos same, if_neg boosted, rep.empty same]

theorem Represents.add_rest (above : floor < p)
    (low : p ≤ top) : Represents floor top (rest ++ [p]) (p :: all) := by
  have boosted : top ≠ floor := by omega
  have perm := rep.perm
  rw [if_neg boosted] at perm
  refine ⟨rep.floor_le, fun q member => ?_, fun same => absurd same boosted, ?_⟩
  · cases mem_append.1 member with
    | inl inside => exact rep.rest_le q inside
    | inr last => exact mem_singleton.1 last ▸ low
  rw [filter_cons_of_pos (by simpa using above), if_neg boosted]
  refine (List.Perm.cons p perm).trans ((List.Perm.swap top p rest).trans ?_)
  exact List.Perm.cons top (perm_append_singleton p rest).symm

end

/-! ## Removing a number -/

theorem Represents.remove_idle (rep : Represents floor floor rest (p :: all)) :
    Represents floor floor rest all := by
  have perm := rep.perm
  rw [if_pos rfl, perm_nil, filter_eq_nil_iff] at perm
  rw [rep.empty rfl]
  refine .idle fun q member => ?_
  simpa using perm q (mem_cons_of_mem p member)

theorem Represents.remove_only (rep : Represents floor top [] (p :: all)) (above : floor < p) :
    Represents floor floor [] all := by
  have perm := rep.perm
  rw [filter_cons_of_pos (by simpa using above)] at perm
  have short := perm.length_eq
  have nothing : (all.filter fun q => floor < q) = [] := by
    split at short
    · cases short
    · simpa using short
  refine .idle fun q member => ?_
  simpa using filter_eq_nil_iff.1 nothing q member

section

variable (rep : Represents floor top rest (p :: all))
include rep

theorem Represents.remove_top {next : ℕ}
    (boosted : floor < top) (high : top ≤ p) (most : ∀ q ∈ rest, q ≤ next)
    (split : rest.Perm (next :: rest')) : Represents floor next rest' all := by
  have same : p = top := le_antisymm (rep.le_top mem_cons_self) high
  subst same
  have perm := rep.perm
  rw [filter_cons_of_pos (by simpa using boosted), if_neg (by omega)] at perm
  have perm := (List.Perm.cons_inv perm).trans split
  have above : floor < next := by
    simpa using of_mem_filter (perm.mem_iff.2 mem_cons_self)
  refine ⟨above.le, fun q member => ?_, fun same => absurd same (by omega), ?_⟩
  · exact most q (split.mem_iff.2 (mem_cons_of_mem next member))
  · rw [if_neg (by omega)]
    exact perm

theorem Represents.remove_low (low : p ≤ floor) : Represents floor top rest all := by
  refine ⟨rep.floor_le, rep.rest_le, rep.empty, ?_⟩
  have perm := rep.perm
  rwa [filter_cons_of_neg (by simpa using low)] at perm

theorem Represents.mem_rest (above : floor < p) (low : p < top) : p ∈ rest := by
  have perm := rep.perm
  rw [if_neg (by omega)] at perm
  have kept : p ∈ (p :: all).filter fun q => floor < q :=
    mem_filter.2 ⟨mem_cons_self, by simpa using above⟩
  exact (mem_cons.1 (perm.mem_iff.1 kept)).resolve_left (by omega)

theorem Represents.remove_rest (above : floor < p)
    (low : p < top) (split : rest.Perm (p :: rest')) : Represents floor top rest' all := by
  have perm := rep.perm
  rw [filter_cons_of_pos (by simpa using above), if_neg (by omega)] at perm
  refine ⟨rep.floor_le, fun q member => ?_, fun same => absurd same (by omega), ?_⟩
  · exact rep.rest_le q (split.mem_iff.2 (mem_cons_of_mem p member))
  rw [if_neg (by omega)]
  have swapped := perm.trans ((List.Perm.cons top split).trans (List.Perm.swap p top rest'))
  exact List.Perm.cons_inv swapped

end

/-! ## The array -/

/-- The index and value of the first largest element, found from index `i` on with the best so
far. -/
def highestFrom (best j i : ℕ) : List ℕ → ℕ × ℕ
  | [] => (best, j)
  | p :: rest => if best < p then highestFrom p i (i + 1) rest else highestFrom best j (i + 1) rest

theorem highestFrom_le (best j i : ℕ) (l : List ℕ) :
    best ≤ (highestFrom best j i l).1 ∧ ∀ q ∈ l, q ≤ (highestFrom best j i l).1 := by
  induction l generalizing best j i with
  | nil => exact ⟨le_refl best, by simp⟩
  | cons p rest ih =>
    rw [highestFrom]
    split
    · rename_i higher
      obtain ⟨above, most⟩ := ih p i (i + 1)
      refine ⟨le_trans (higher.le) above, fun q member => ?_⟩
      cases mem_cons.1 member with
      | inl same => exact same ▸ above
      | inr inside => exact most q inside
    rename_i lower
    obtain ⟨above, most⟩ := ih best j (i + 1)
    refine ⟨above, fun q member => ?_⟩
    cases mem_cons.1 member with
    | inl same => exact same ▸ le_trans (not_lt.1 lower) above
    | inr inside => exact most q inside

theorem highestFrom_get (l : List ℕ) (best j : ℕ) (seen : List ℕ) (here : seen[j]? = some best) :
    (seen ++ l)[(highestFrom best j seen.length l).2]? =
      some (highestFrom best j seen.length l).1 := by
  induction l generalizing best j seen with
  | nil => simpa [highestFrom] using here
  | cons p rest ih =>
    have longer : (seen ++ [p]).length = seen.length + 1 := by simp
    rw [highestFrom]
    split
    · have next := ih p seen.length (seen ++ [p]) (by simp)
      rwa [longer, append_assoc, singleton_append] at next
    have inside : j < seen.length := (List.getElem?_eq_some_iff.1 here).1
    have next := ih best j (seen ++ [p]) (by rwa [getElem?_append_left inside])
    rwa [longer, append_assoc, singleton_append] at next

/-- An element of an array is removed by moving the last one into its place. -/
def moveLast (l : List ℕ) (j : ℕ) : List ℕ :=
  match l.getLast? with
  | none => []
  | some last => (l.set j last).dropLast

theorem perm_moveLast {j : ℕ} {l : List ℕ} (here : l[j]? = some p) :
    l.Perm (p :: moveLast l j) := by
  rcases eq_nil_or_concat l with rfl | ⟨front, last, rfl⟩
  · simp at here
  rw [concat_eq_append] at here ⊢
  have last_eq : (front ++ [last]).getLast? = some last := by simp
  simp only [moveLast, last_eq]
  by_cases inside : j < front.length
  · rw [getElem?_append_left inside, getElem?_eq_getElem inside, Option.some.injEq] at here
    rw [set_append_left _ _ inside, dropLast_concat, set_eq_take_append_cons_drop,
      if_pos inside]
    nth_rewrite 1 [← take_append_drop j front]
    rw [drop_eq_getElem_cons inside, here, append_assoc, cons_append]
    refine perm_middle.trans (.cons p ?_)
    exact List.Perm.append_left _ (perm_append_singleton last _)
  have at_end : j = front.length := by
    have bound := (List.getElem?_eq_some_iff.1 here).1
    simp only [length_append, length_singleton] at bound
    omega
  subst at_end
  have same : last = p := by simpa using here
  subst same
  rw [set_append_right _ _ (le_rfl), Nat.sub_self, set_cons_zero, dropLast_concat]
  exact perm_append_singleton last front

/-! ## A number is given back -/

/-- The new largest number and the rest. A number that is not found is not taken for one above the
floor, unless the largest is the only one. -/
def giveBack (floor top : ℕ) (rest : List ℕ) (p : ℕ) : ℕ × List ℕ :=
  if top ≠ floor then
    match rest with
    | [] => (floor, [])
    | first :: others =>
      if top ≤ p then
        let (next, j) := highestFrom first 0 1 others
        (next, moveLast rest j)
      else
        match rest.findIdx? (· = p) with
        | none => (top, rest)
        | some i => (top, moveLast rest i)
  else (top, rest)

theorem Represents.giveBack (rep : Represents floor top rest (p :: all))
    (restorable : top = floor ∨ rest ≠ [] ∨ floor < p) :
    Represents floor (PendingMax.giveBack floor top rest p).1
      (PendingMax.giveBack floor top rest p).2 all := by
  unfold PendingMax.giveBack
  split
  · next boosted =>
    have above : floor < top := lt_of_le_of_ne rep.floor_le (Ne.symm boosted)
    split
    · next => exact rep.remove_only (by simpa [boosted] using restorable)
    next first others =>
    split
    · next high =>
      have here : (first :: others)[(highestFrom first 0 1 others).2]? =
          some (highestFrom first 0 1 others).1 := highestFrom_get others first 0 [first] rfl
      obtain ⟨first_le, others_le⟩ := highestFrom_le first 0 1 others
      exact rep.remove_top above high (forall_mem_cons.2 ⟨first_le, others_le⟩)
        (perm_moveLast here)
    next low =>
    have low : p < top := not_le.1 low
    split
    · next missing =>
      refine rep.remove_low (not_lt.1 fun high => ?_)
      simpa using findIdx?_eq_none_iff.1 missing p (rep.mem_rest high low)
    next i found =>
    have here : (first :: others)[i]? = some p := by
      obtain ⟨bound, same, _⟩ := findIdx?_eq_some_iff_getElem.1 found
      rw [getElem?_eq_getElem bound, Option.some.injEq]
      simpa using same
    have perm := rep.perm
    rw [if_neg boosted] at perm
    have kept := of_mem_filter
      (perm.mem_iff.2 (mem_cons_of_mem _ (mem_of_getElem? here)))
    exact rep.remove_rest (by simpa using kept) low (perm_moveLast here)
  next same =>
  obtain rfl : top = floor := Decidable.not_not.1 same
  exact rep.remove_idle

end PendingMax
