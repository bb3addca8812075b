import NuttxRtos.Lib.Memory
import Mathlib.Data.List.Basic

/-!
# Doubly linked lists in memory

A node is an address; its two link words lie at fixed offsets (`LinkFields`). `Links` states a
null-terminated doubly linked list, `Seg` an open segment of one. The two edits are statements about
the list of addresses (`links_unlink`, `links_insert`), and write link words of listed nodes only
(`LinkBytes`).
-/

open Memory

/-- Offsets of the link words inside a node of `width` bytes. -/
structure LinkFields where
  flink : ℕ
  blink : ℕ
  width : ℕ
  flink_le : flink + 4 ≤ width
  blink_le : blink + 4 ≤ width
  apart : flink + 4 ≤ blink ∨ blink + 4 ≤ flink

namespace LinkFields

open List

variable (F : LinkFields)

def next (m : Memory) (x : ℕ) : ℕ := load32 m (x + F.flink)

def prev (m : Memory) (x : ℕ) : ℕ := load32 m (x + F.blink)

def setNext (m : Memory) (x v : ℕ) : Memory := store32 m (x + F.flink) v

def setPrev (m : Memory) (x v : ℕ) : Memory := store32 m (x + F.blink) v

def unlink (m : Memory) (x : ℕ) : Memory :=
  let m := F.setNext m (F.prev m x) (F.next m x)
  if F.next m x ≠ 0 then F.setPrev m (F.next m x) (F.prev m x) else m

/-- Put `x` between `p` and its successor `n`, which may be null. -/
def insert (m : Memory) (p x n : ℕ) : Memory :=
  let m := F.setNext m p x
  let m := F.setPrev m x p
  let m := F.setNext m x n
  if n ≠ 0 then F.setPrev m n x else m

/-- Consecutive nodes point at each other. -/
def Seg (m : Memory) : List ℕ → Prop
  | x :: y :: rest => F.next m x = y ∧ F.prev m y = x ∧ Seg m (y :: rest)
  | _ => True

/-- A segment whose last node has a null forward link. -/
def Links (m : Memory) : List ℕ → Prop
  | x :: y :: rest => F.next m x = y ∧ F.prev m y = x ∧ Links m (y :: rest)
  | [x] => F.next m x = 0
  | [] => True

def Apart (x y : ℕ) : Prop := x + F.width ≤ y ∨ y + F.width ≤ x

def LinkBytes (l : List ℕ) (b : ℕ) : Prop :=
  ∃ x ∈ l, (x + F.flink ≤ b ∧ b < x + F.flink + 4) ∨ (x + F.blink ≤ b ∧ b < x + F.blink + 4)

variable {F} {m m' : Memory}

variable {x : ℕ}

theorem Apart.symm {y : ℕ} (h : F.Apart x y) : F.Apart y x := Or.symm h

/-! ## Reading a list -/

variable {l₁ l₂ : List ℕ}

theorem links_append : F.Links m (l₁ ++ x :: l₂) ↔ F.Seg m (l₁ ++ [x]) ∧ F.Links m (x :: l₂) := by
  induction l₁ with
  | nil => simp [Seg]
  | cons a l₁ ih =>
    cases l₁ with
    | nil => simp [Seg, Links, and_assoc]
    | cons b l₁ =>
      simp only [cons_append] at ih
      simp only [cons_append, Links, Seg, ih, and_assoc]

variable {l : List ℕ}

theorem Links.next_eq (h : F.Links m (x :: l)) : F.next m x = l.headD 0 := by
  cases l with
  | nil => exact h
  | cons y l => exact h.1

variable {p v : ℕ}

theorem Links.tail (h : F.Links m (x :: l)) : F.Links m l := by
  cases l with
  | nil => trivial
  | cons y l => exact h.2.2

/-- A segment ending in `p` reads the forward links before `p` and no forward link of `p`. -/
theorem Seg.congr (h : F.Seg m (l ++ [p])) (hn : ∀ x ∈ l, F.next m' x = F.next m x)
    (hp : ∀ x ∈ l ++ [p], F.prev m' x = F.prev m x) : F.Seg m' (l ++ [p]) := by
  induction l with
  | nil => trivial
  | cons a l ih =>
    have rest := fun g => ih g (fun x hx => hn x (mem_cons_of_mem _ hx))
      (fun x hx => hp x (mem_cons_of_mem _ hx))
    have ha := hn a mem_cons_self
    cases l with
    | nil => exact ⟨ha.trans h.1, (hp p (by simp)).trans h.2.1, trivial⟩
    | cons b l => exact ⟨ha.trans h.1, (hp b (by simp)).trans h.2.1, rest h.2.2⟩

theorem Links.congr (h : F.Links m (x :: l))
    (hn : ∀ y ∈ x :: l, F.next m' y = F.next m y) (hp : ∀ y ∈ l, F.prev m' y = F.prev m y) :
    F.Links m' (x :: l) := by
  induction l generalizing x with
  | nil => exact (hn x (by simp)).trans h
  | cons y l ih =>
    refine ⟨(hn x (by simp)).trans h.1, (hp y (by simp)).trans h.2.1, ih h.2.2 ?_ ?_⟩
    · exact fun z hz => hn z (mem_cons_of_mem _ hz)
    · exact fun z hz => hp z (mem_cons_of_mem _ hz)

theorem Links.sameOff {S : ℕ → Prop} (h : F.Links m l) (same : SameOff S m m')
    (off : ∀ b, F.LinkBytes l b → ¬ S b) : F.Links m' l := by
  cases l with
  | nil => trivial
  | cons x l =>
    refine h.congr (fun y hy => ?_) (fun y hy => ?_)
    · exact load32_sameOff same fun i hi => off _ ⟨y, hy, by omega⟩
    · exact load32_sameOff same fun i hi => off _ ⟨y, mem_cons_of_mem _ hy, by omega⟩

/-! ## Link words of different nodes -/

theorem next_setNext_same (small : v < 2 ^ 32) : F.next (F.setNext m x v) x = v :=
  load32_store32_same m small

theorem prev_setPrev_same (small : v < 2 ^ 32) : F.prev (F.setPrev m x v) x = v :=
  load32_store32_same m small

variable {y v : ℕ}

theorem next_setNext_apart (h : F.Apart x y) : F.next (F.setNext m x v) y = F.next m y := by
  have := F.flink_le
  unfold Apart at h
  exact load32_store32_off m (by omega)

theorem prev_setPrev_apart (h : F.Apart x y) : F.prev (F.setPrev m x v) y = F.prev m y := by
  have := F.blink_le
  unfold Apart at h
  exact load32_store32_off m (by omega)

theorem next_setPrev (h : x = y ∨ F.Apart x y) : F.next (F.setPrev m x v) y = F.next m y := by
  have := F.blink_le
  have := F.flink_le
  have := F.apart
  unfold Apart at h
  exact load32_store32_off m (by omega)

theorem prev_setNext (h : x = y ∨ F.Apart x y) : F.prev (F.setNext m x v) y = F.prev m y := by
  have := F.blink_le
  have := F.flink_le
  have := F.apart
  unfold Apart at h
  exact load32_store32_off m (by omega)

theorem sameOff_setNext (hx : x ∈ l) (same : SameOff (F.LinkBytes l) m m') :
    SameOff (F.LinkBytes l) m (F.setNext m' x v) :=
  same.store32 v fun i hi => ⟨x, hx, by omega⟩

theorem sameOff_setPrev (hx : x ∈ l) (same : SameOff (F.LinkBytes l) m m') :
    SameOff (F.LinkBytes l) m (F.setPrev m' x v) :=
  same.store32 v fun i hi => ⟨x, hx, by omega⟩

/-! ## Joining two nodes -/

/-- Make `n`, which may be null, the successor of `p`. -/
def join (F : LinkFields) (m : Memory) (p n : ℕ) : Memory :=
  let m := F.setNext m p n
  if n ≠ 0 then F.setPrev m n p else m

variable {n : ℕ}

theorem next_join (far : F.Apart p y) (farn : n = 0 ∨ n = y ∨ F.Apart n y) :
    F.next (F.join m p n) y = F.next m y := by
  unfold join
  split
  · next some => rw [next_setPrev (farn.resolve_left some), next_setNext_apart far]
  · exact next_setNext_apart far

theorem prev_join (far : p = y ∨ F.Apart p y) (farn : n = 0 ∨ F.Apart n y) :
    F.prev (F.join m p n) y = F.prev m y := by
  unfold join
  split
  · next some => rw [prev_setPrev_apart (farn.resolve_left some), prev_setNext far]
  · exact prev_setNext far

theorem next_join_self (far : n = 0 ∨ F.Apart n p) (small : n < 2 ^ 32) :
    F.next (F.join m p n) p = n := by
  unfold join
  split
  · next some => rw [next_setPrev (.inr (far.resolve_left some)), next_setNext_same small]
  · exact next_setNext_same small

theorem prev_join_self (some : n ≠ 0) (small : p < 2 ^ 32) : F.prev (F.join m p n) n = p := by
  rw [join, if_pos some, prev_setPrev_same small]

theorem join_sameOff (hp : p ∈ l) (hn : n = 0 ∨ n ∈ l) (same : SameOff (F.LinkBytes l) m m') :
    SameOff (F.LinkBytes l) m (F.join m' p n) := by
  unfold join
  split
  · next some => exact sameOff_setPrev (hn.resolve_left some) (sameOff_setNext hp same)
  · exact sameOff_setNext hp same

theorem Seg.join (seg : F.Seg m (l ++ [p])) (far : ∀ y ∈ l, F.Apart y p)
    (farn : n = 0 ∨ ∀ y ∈ l ++ [p], F.Apart n y) : F.Seg (F.join m p n) (l ++ [p]) := by
  refine seg.congr (fun y hy => next_join (far y hy).symm ?_) fun y hy => prev_join ?_ ?_
  · exact farn.imp_right fun h => .inr (h y (by simp [hy]))
  · rcases mem_append.1 hy with hy | hy
    · exact .inr (far y hy).symm
    · exact .inl (mem_singleton.1 hy).symm
  · exact farn.imp_right fun h => h y hy

theorem headD_cases (l : List ℕ) : l.headD 0 = 0 ∨ l.headD 0 ∈ l := by
  cases l <;> simp

theorem links_join (seg : F.Seg m (l₁ ++ [p])) (links : F.Links m l₂)
    (far : (l₁ ++ p :: l₂).Pairwise F.Apart) (addr : ∀ y ∈ p :: l₂, 0 < y ∧ y < 2 ^ 32) :
    F.Links (F.join m p (l₂.headD 0)) (l₁ ++ p :: l₂) := by
  obtain ⟨-, farp, far₁⟩ := pairwise_append.1 far
  obtain ⟨farp, far₂⟩ := pairwise_cons.1 farp
  refine links_append.2 ⟨seg.join (fun y hy => far₁ y hy p (by simp))
    ((headD_cases l₂).imp_right fun hz y hy => ?_), ?_⟩
  · rcases mem_append.1 hy with hy | hy
    · exact (far₁ y hy _ (mem_cons_of_mem p hz)).symm
    · rw [mem_singleton.1 hy]
      exact (farp _ hz).symm
  cases l₂ with
  | nil => exact next_join_self (.inl rfl) (by simp)
  | cons z l₂ =>
    have hz := addr z (by simp)
    have farz := (pairwise_cons.1 far₂).1
    refine ⟨next_join_self (.inr (farp z (by simp)).symm) hz.2, prev_join_self (Nat.ne_of_gt
      hz.1) (addr p (by simp)).2,
        links.congr (fun y hy => next_join (farp y hy) (.inr ?_)) fun y hy => ?_⟩
    · exact (mem_cons.1 hy).imp Eq.symm (farz y)
    · exact prev_join (.inr (farp y (mem_cons_of_mem z hy))) (.inr (farz y hy))

/-! ## Taking a node out -/

section

variable (h : F.Links m (l₁ ++ p :: x :: l₂))

include h

theorem unlink_eq (far : F.Apart p x) : F.unlink m x = F.join m p (l₂.headD 0) := by
  have hp : F.prev m x = p := (links_append.1 h).2.2.1
  have hn : F.next m x = l₂.headD 0 := ((links_append.1 h).2.2.2).next_eq
  simp only [unlink, join, hp, hn, next_setNext_apart far, prev_setNext (.inr far)]

theorem links_unlink (far : (l₁ ++ p :: x :: l₂).Pairwise F.Apart)
    (addr : ∀ y ∈ l₁ ++ p :: x :: l₂, 0 < y ∧ y < 2 ^ 32) :
    F.Links (F.unlink m x) (l₁ ++ p :: l₂) := by
  have less : (p :: l₂).Sublist (p :: x :: l₂) := (sublist_cons_self x l₂).cons_cons p
  have farp := pairwise_cons.1 (pairwise_append.1 far).2.1
  rw [unlink_eq h (farp.1 x (by simp))]
  obtain ⟨seg, rest⟩ := links_append.1 h
  refine links_join seg rest.2.2.tail (far.sublist (less.append_left l₁)) fun y hy => ?_
  exact addr y (mem_append_right l₁ (less.subset hy))

theorem unlink_sameOff (far : F.Apart p x) :
    SameOff (F.LinkBytes (l₁ ++ p :: l₂)) m (F.unlink m x) := by
  rw [unlink_eq h far]
  refine join_sameOff (by simp) ((headD_cases l₂).imp_right fun hz => ?_) (.refl _ m)
  exact mem_append_right l₁ (mem_cons_of_mem p hz)

end

/-! ## Putting a node in -/

theorem seg_concat : F.Seg m (l ++ [p] ++ [x]) ↔
    F.Seg m (l ++ [p]) ∧ F.next m p = x ∧ F.prev m x = p := by
  induction l with
  | nil => simp [Seg]
  | cons a l ih =>
    cases l with
    | nil => simp [Seg, and_assoc]
    | cons b l =>
      simp only [cons_append] at ih
      simp only [cons_append, Seg, ih, and_assoc]

theorem links_insert (h : F.Links m (l₁ ++ p :: l₂)) (far : (l₁ ++ p :: l₂).Pairwise F.Apart)
    (farx : ∀ y ∈ l₁ ++ p :: l₂, F.Apart x y)
    (addr : ∀ y ∈ x :: (l₁ ++ p :: l₂), 0 < y ∧ y < 2 ^ 32) :
    F.Links (F.insert m p x (l₂.headD 0)) (l₁ ++ p :: x :: l₂) := by
  obtain ⟨-, farp, far₁⟩ := pairwise_append.1 far
  have farp := (pairwise_cons.1 farp).1
  have hx := addr x (by simp)
  obtain ⟨seg, rest⟩ := links_append.1 h
  -- the insertion joins `p` and `x`, and then `x` and the old successor of `p`
  have first : F.join m p x = F.setPrev (F.setNext m p x) x p := if_pos (Nat.ne_of_gt hx.1)
  have twice : F.insert m p x (l₂.headD 0) = F.join (F.join m p x) x (l₂.headD 0) := first ▸ rfl
  have split : l₁ ++ p :: x :: l₂ = l₁ ++ [p] ++ x :: l₂ := by simp
  rw [twice, split]
  refine links_join
    (seg_concat.2 ⟨seg.join (fun y hy => far₁ y hy p (by simp)) (.inr fun y hy => ?_),
    next_join_self (.inr (farx p (by simp))) hx.2, prev_join_self (Nat.ne_of_gt hx.1)
      (addr p (by simp)).2⟩) ?_ ?_ fun y hy => ?_
  · exact farx y (by simp only [mem_append, mem_cons] at hy ⊢; tauto)
  · cases l₂ with
    | nil => trivial
    | cons z l₂ =>
      refine rest.tail.congr (fun y hy => next_join (farp y hy) (.inr (.inr ?_))) fun y hy => ?_
      · exact farx y (by simp only [mem_append, mem_cons] at hy ⊢; tauto)
      · exact prev_join (.inr (farp y (by simp [hy]))) (.inr (farx y (by simp [hy])))
  · refine (pairwise_middle Apart.symm).2 (pairwise_cons.2 ⟨fun y hy => farx y ?_, ?_⟩)
    · simpa using hy
    · simpa using far
  · exact addr y (by simp only [mem_append, mem_cons] at hy ⊢; tauto)

theorem insert_sameOff (F : LinkFields) (m : Memory) (l₁ l₂ : List ℕ) (p x : ℕ) :
    SameOff (F.LinkBytes (x :: (l₁ ++ p :: l₂))) m (F.insert m p x (l₂.headD 0)) := by
  refine join_sameOff (by simp) ((headD_cases l₂).imp_right fun hz => ?_) ?_
  · exact mem_cons_of_mem x (mem_append_right l₁ (mem_cons_of_mem p hz))
  exact sameOff_setPrev (by simp) (sameOff_setNext (by simp) (.refl _ m))

end LinkFields
