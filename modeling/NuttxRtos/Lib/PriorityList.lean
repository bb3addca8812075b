import Mathlib.Algebra.Order.Ring.Int
import Mathlib.Data.List.Sort

/-! Lists kept in order of non-increasing priority. A new element goes behind those of its own
priority, so that equal elements leave the list in the order in which they came. -/

namespace PriorityList

open List

variable {α : Type*}

/-- Priorities do not increase along the list. -/
def Desc (key : α → ℕ) (l : List α) : Prop :=
  l.Pairwise fun a b => key b ≤ key a

/-- Insert an element behind all elements of at least its priority. -/
def insert (key : α → ℕ) (a : α) (l : List α) : List α :=
  l.orderedInsert (fun a b => key b < key a) a

variable {key key' : α → ℕ} {a b : α} {l before rest new : List α}

@[simp] theorem insert_nil : insert key a [] = [a] := rfl

theorem insert_cons_of_lt (lower : key b < key a) : insert key a (b :: l) = a :: b :: l :=
  if_pos lower

theorem insert_cons_of_le (higher : key a ≤ key b) : insert key a (b :: l) = b :: insert key a l :=
  if_neg (not_lt.2 higher)

theorem insert_perm : (insert key a l).Perm (a :: l) := perm_orderedInsert _ _ _

@[simp] theorem mem_insert : b ∈ insert key a l ↔ b = a ∨ b ∈ l := by
  rw [insert_perm.mem_iff, mem_cons]

theorem insert_nodup (nodup : l.Nodup) (fresh : a ∉ l) : (insert key a l).Nodup :=
  insert_perm.nodup_iff.2 (nodup_cons.2 ⟨fresh, nodup⟩)

/-- A relation that refines the order holds along the list if the new element is related to those
around it. -/
theorem insert_pairwise {r : α → α → Prop} (pairwise : l.Pairwise r) (desc : Desc key l)
    (before : ∀ b ∈ l, key a ≤ key b → r b a) (after : ∀ b ∈ l, key b < key a → r a b) :
    (insert key a l).Pairwise r := by
  induction l with
  | nil => exact pairwise_singleton _ _
  | cons b l ih =>
    obtain ⟨related, pairwise_tail⟩ := pairwise_cons.1 pairwise
    obtain ⟨lower_tail, desc_tail⟩ := pairwise_cons.1 desc
    by_cases lower : key b < key a
    · rw [insert_cons_of_lt lower]
      refine pairwise_cons.2 ⟨fun c member => ?_, pairwise⟩
      cases mem_cons.1 member with
      | inl same => exact same ▸ after b mem_cons_self lower
      | inr later => exact after c member ((lower_tail c later).trans_lt lower)
    rw [insert_cons_of_le (not_lt.1 lower)]
    refine pairwise_cons.2 ⟨fun c member => ?_, ih pairwise_tail desc_tail ?_ ?_⟩
    · cases mem_insert.1 member with
      | inl same => exact same ▸ before b mem_cons_self (not_lt.1 lower)
      | inr later => exact related c later
    · exact fun c member => before c (mem_cons_of_mem _ member)
    · exact fun c member => after c (mem_cons_of_mem _ member)

theorem insert_desc (desc : Desc key l) : Desc key (insert key a l) :=
  insert_pairwise desc desc (fun _ _ higher => higher) fun _ _ lower => lower.le

theorem head?_insert_cons :
    (insert key a (b :: l)).head? = some (if key b < key a then a else b) := by
  by_cases lower : key b < key a
  · rw [insert_cons_of_lt lower, if_pos lower, head?_cons]
  · rw [insert_cons_of_le (not_lt.1 lower), if_neg lower, head?_cons]

theorem foldl_insert_cons (higher : ∀ a ∈ new, key a ≤ key b) :
    new.foldl (fun l a => insert key a l) (b :: l) =
      b :: new.foldl (fun l a => insert key a l) l := by
  induction new generalizing l with
  | nil => rfl
  | cons a new ih =>
    rw [foldl_cons, insert_cons_of_le (higher a mem_cons_self), foldl_cons]
    exact ih fun c member => higher c (mem_cons_of_mem _ member)

theorem head?_foldl_insert_of_lt (desc : Desc key (a :: new)) (lower : key b < key a) :
    ((a :: new).foldl (fun l a => insert key a l) (b :: l)).head? = some a := by
  rw [foldl_cons, insert_cons_of_lt lower, foldl_insert_cons (pairwise_cons.1 desc).1, head?_cons]

theorem foldl_insert_nil (desc : Desc key new) :
    new.foldl (fun l a => insert key a l) [] = new := by
  induction new with
  | nil => rfl
  | cons a new ih =>
    obtain ⟨higher, desc⟩ := pairwise_cons.1 desc
    rw [foldl_cons, insert_nil, foldl_insert_cons higher, ih desc]

theorem insert_append (higher : ∀ b ∈ before, key a ≤ key b) :
    insert key a (before ++ rest) = before ++ insert key a rest := by
  induction before with
  | nil => rfl
  | cons b before ih =>
    rw [cons_append, insert_cons_of_le (higher b mem_cons_self),
      ih fun c member => higher c (mem_cons_of_mem _ member), cons_append]

theorem insert_concat (lower : key b < key a) :
    insert key a (l ++ [b]) = insert key a l ++ [b] := by
  induction l with
  | nil => exact insert_cons_of_lt lower
  | cons c l ih =>
    by_cases below : key c < key a
    · rw [cons_append, insert_cons_of_lt below, insert_cons_of_lt below]
      rfl
    · rw [cons_append, insert_cons_of_le (not_lt.1 below),
        insert_cons_of_le (not_lt.1 below), ih, cons_append]

theorem Desc.sublist (desc : Desc key l) (sub : rest.Sublist l) : Desc key rest :=
  List.Pairwise.sublist sub desc

theorem Desc.erase [DecidableEq α] (desc : Desc key l) (a : α) : Desc key (l.erase a) :=
  desc.sublist erase_sublist

theorem Desc.head_le (desc : Desc key (b :: l)) (member : a ∈ b :: l) : key a ≤ key b := by
  cases mem_cons.1 member with
  | inl same => exact same ▸ le_rfl
  | inr later => exact (pairwise_cons.1 desc).1 a later

theorem Desc.congr (desc : Desc key l) (same : ∀ b ∈ l, key' b = key b) : Desc key' l := by
  refine List.Pairwise.imp_of_mem (fun {b c} in_b in_c ordered => ?_) desc
  rw [same b in_b, same c in_c]
  exact ordered

theorem Desc.update [DecidableEq α] {p : ℕ} (desc : Desc key l) (fresh : a ∉ l) :
    Desc (Function.update key a p) l :=
  desc.congr fun b member => Function.update_of_ne (fun same : b = a => fresh (same ▸ member)) _ _

theorem Desc.update_head [DecidableEq α] {p : ℕ} (desc : Desc key (a :: b :: l))
    (fresh : a ∉ b :: l) (above : key b ≤ p) : Desc (Function.update key a p) (a :: b :: l) := by
  have desc_tail : Desc key (b :: l) := (pairwise_cons.1 desc).2
  have kept : ∀ c ∈ b :: l, Function.update key a p c = key c := by
    intro c member
    exact Function.update_of_ne (fun same : c = a => fresh (same ▸ member)) _ _
  refine pairwise_cons.2 ⟨fun c member => ?_, desc_tail.congr kept⟩
  rw [Function.update_self, kept c member]
  exact (desc_tail.head_le member).trans above

theorem filter_insert (desc : Desc key l) (p : ℕ) :
    (insert key a l).filter (key · = p) =
      l.filter (key · = p) ++ [a].filter (key · = p) := by
  induction l with
  | nil => rfl
  | cons b l ih =>
    by_cases lower : key b < key a
    · rw [insert_cons_of_lt lower]
      by_cases same : key a = p
      · have none : (b :: l).filter (key · = p) = [] := by
          apply filter_eq_nil_iff.2
          intro c member
          have := desc.head_le member
          simp only [decide_eq_true_eq]
          omega
        rw [filter_cons, none, nil_append, filter_cons, filter_nil]
      · simp [same]
    · rw [insert_cons_of_le (not_lt.1 lower), ← singleton_append, filter_append,
        ih (pairwise_cons.1 desc).2, ← append_assoc, ← filter_append, singleton_append]

/-- The list is in order, and elements of one priority come in their old order, those of `l`
first. -/
structure Merge (key : α → ℕ) (l new merged : List α) : Prop where
  desc : Desc key merged
  stable : ∀ p, merged.filter (key · = p) = l.filter (key · = p) ++ new.filter (key · = p)

theorem foldl_insert_merge (desc : Desc key l) :
    Merge key l new (new.foldl (fun l a => insert key a l) l) := by
  induction new generalizing l with
  | nil => exact ⟨desc, by simp⟩
  | cons a new ih =>
    obtain ⟨sorted, stable⟩ := ih (insert_desc (a := a) desc)
    refine ⟨sorted, fun p => ?_⟩
    rw [foldl_cons, stable, filter_insert desc, append_assoc, ← filter_append]
    rfl

end PriorityList
