import NuttxRtos.Lib.Chain

/-!
# Doubly linked queues

Queues whose entries carry the links. An entry does not say on which queue it is: `rem` edits the
ends of the queue that it is given.
-/

namespace Dq

open Function Chain List

variable {μ κ : Type}

/-- The links of the entries, and the two ends of each queue. -/
structure Links (μ κ : Type) where
  flink : μ → Option μ
  blink : μ → Option μ
  head : κ → Option μ
  tail : κ → Option μ

/-- Between the entries `p` and `n` lies the list. -/
def Segment (flink blink : μ → Option μ) : Option μ → List μ → Option μ → Prop
  | _, [], _ => True
  | p, x :: l, n =>
    blink x = p ∧ flink x = l.head?.or n ∧ Segment flink blink (some x) l n

structure Queues (d : Links μ κ) (lists : κ → List μ) : Prop where
  head : ∀ k, d.head k = (lists k).head?
  tail : ∀ k, d.tail k = (lists k).getLast?
  segment : ∀ k, Segment d.flink d.blink none (lists k) none
  nodup : ∀ k, (lists k).Nodup
  alone : ∀ j k x, x ∈ lists j → x ∈ lists k → j = k

variable {flink blink flink' blink' : μ → Option μ} {p n : Option μ} {l l₁ l₂ : List μ} {x : μ}

theorem segment_append : Segment flink blink p (l₁ ++ l₂) n ↔
    Segment flink blink p l₁ (l₂.head?.or n) ∧ Segment flink blink (l₁.getLast?.or p) l₂ n := by
  induction l₁ generalizing p with
  | nil => simp [Segment]
  | cons x l₁ ih =>
    simp only [cons_append, Segment, ih, head?_append, Option.or_assoc, and_assoc]
    cases l₁ <;> simp [getLast?_cons]

theorem Segment.congr (seg : Segment flink blink p l n)
    (same : ∀ x ∈ l, flink' x = flink x ∧ blink' x = blink x) : Segment flink' blink' p l n := by
  induction l generalizing p with
  | nil => trivial
  | cons x l ih =>
    obtain ⟨here, rest⟩ := forall_mem_cons.1 same
    exact ⟨here.2.trans seg.1, here.1.trans seg.2.1, ih seg.2.2 rest⟩

theorem Segment.path (seg : Segment flink blink p l none) : Path flink l.head? l := by
  induction l generalizing p with
  | nil => rfl
  | cons x l ih =>
    refine ⟨rfl, ?_⟩
    rw [seg.2.1, Option.or_none]
    exact ih seg.2.2

variable {d : Links μ κ} {lists : κ → List μ}

theorem Queues.path (queues : Queues d lists) (k : κ) : Path d.flink (d.head k) (lists k) :=
  queues.head k ▸ (queues.segment k).path

theorem Queues.flink_mem (queues : Queues d lists) {k : κ} {y : μ} (member : x ∈ lists k)
    (next : d.flink x = some y) : y ∈ lists k := by
  obtain ⟨l₁, l₂, whole⟩ := append_of_mem member
  have seg := queues.segment k
  rw [whole, segment_append] at seg
  rw [seg.2.2.1, Option.or_none] at next
  rw [whole]
  exact mem_append_right l₁ (mem_cons_of_mem x (mem_of_head? next))

/-! ## Edits -/

variable [DecidableEq μ]

def relink (link : μ → Option μ) (entry value : Option μ) : μ → Option μ :=
  match entry with
  | none => link
  | some x => update link x value

theorem relink_ne {link : μ → Option μ} {entry value : Option μ} (other : entry ≠ some x) :
    relink link entry value x = link x := by
  cases entry with
  | none => rfl
  | some y => exact update_of_ne (by grind) ..

theorem Segment.relast (seg : Segment flink blink p l n) (nodup : l.Nodup) (n' : Option μ) :
    Segment (relink flink l.getLast? n') blink p l n' := by
  rcases eq_nil_or_concat l with rfl | ⟨front, last, rfl⟩
  · trivial
  rw [concat_eq_append] at *
  rw [getLast?_append_of_ne_nil _ (by simp), segment_append] at *
  refine ⟨seg.1.congr fun x member => ⟨relink_ne (by grind), rfl⟩, seg.2.1, ?_, trivial⟩
  simp [relink]

theorem Segment.refirst (seg : Segment flink blink p l n) (nodup : l.Nodup) (p' : Option μ) :
    Segment flink (relink blink l.head? p') p' l n := by
  cases l with
  | nil => trivial
  | cons x l =>
    refine ⟨by simp [relink], seg.2.1, seg.2.2.congr fun y member => ⟨rfl, relink_ne ?_⟩⟩
    grind

variable [DecidableEq κ] {d : Links μ κ} {lists : κ → List μ} {k : κ}

def rem (d : Links μ κ) (x : μ) (k : κ) : Links μ κ :=
  let prev := d.blink x
  let next := d.flink x
  { head := if prev.isNone then update d.head k next else d.head
    flink := update (relink d.flink prev next) x none
    tail := if next.isNone then update d.tail k prev else d.tail
    blink := update (relink d.blink next prev) x none }

/-- `dq_addlast`. It has no result when the queue has a head and no tail. -/
def addlast (d : Links μ κ) (x : μ) (k : κ) : Option (Links μ κ) :=
  let flink := update d.flink x none
  let blink := update d.blink x (d.tail k)
  match d.head k, d.tail k with
  | none, _ => some ⟨flink, blink, update d.head k (some x), update d.tail k (some x)⟩
  | some _, none => none
  | some _, some t => some ⟨update flink t (some x), blink, d.head, update d.tail k (some x)⟩

theorem Queues.rem (queues : Queues d lists) (member : x ∈ lists k) :
    Queues (rem d x k) (update lists k ((lists k).erase x)) := by
  obtain ⟨l₁, l₂, whole⟩ := append_of_mem member
  have nodup := queues.nodup k
  have seg := queues.segment k
  have head := queues.head k
  have tail := queues.tail k
  rw [whole] at nodup seg head tail
  have erased : (lists k).erase x = l₁ ++ l₂ := by
    rw [whole, erase_append_right _ (by grind), erase_cons_head]
  rw [erased]
  rw [segment_append] at seg
  obtain ⟨first, before, after, second⟩ := seg
  have headIn : ∀ y, l₂.head? = some y → y ∈ l₂ := fun y => mem_of_head?
  have others : ∀ j, j ≠ k → ∀ y ∈ lists j, y ∉ l₁ ++ x :: l₂ := fun j other y inside again =>
    other (queues.alone j k y inside (whole ▸ again))
  refine ⟨fun j => ?_, fun j => ?_, fun j => ?_, fun j => ?_, fun i j y => ?_⟩
  · by_cases same : j = k
    · subst same
      rw [update_self, Dq.rem, before, after]
      cases l₁ <;> simp_all
    · simp only [update_of_ne same, ← queues.head, Dq.rem]
      split <;> simp [same]
  · by_cases same : j = k
    · subst same
      rw [update_self, Dq.rem, before, after]
      cases l₂ <;> simp_all
    · simp only [update_of_ne same, ← queues.tail, Dq.rem]
      split <;> simp [same]
  · simp only [Dq.rem, before, after]
    by_cases same : j = k
    · subst same
      rw [update_self, segment_append, Option.or_none, Option.or_none]
      constructor
      · refine (first.relast (by grind) l₂.head?).congr fun y inside => ?_
        rw [update_of_ne (by grind), update_of_ne (by grind)]
        exact ⟨rfl, relink_ne (by grind)⟩
      refine (second.refirst (by grind) l₁.getLast?).congr fun y inside => ?_
      rw [update_of_ne (by grind), update_of_ne (by grind)]
      exact ⟨relink_ne (by grind), rfl⟩
    rw [update_of_ne same]
    refine (queues.segment j).congr fun y inside => ?_
    rw [update_of_ne (by grind), update_of_ne (by grind)]
    exact ⟨relink_ne (by grind), relink_ne (by grind)⟩
  · have := queues.nodup j
    by_cases same : j = k <;> grind
  · have := queues.alone i j y
    grind

theorem Queues.addlast (queues : Queues d lists) (fresh : ∀ j, x ∉ lists j) :
    ∃ d', addlast d x k = some d' ∧ Queues d' (update lists k (lists k ++ [x])) := by
  have head := queues.head k
  have tail := queues.tail k
  have seg := queues.segment k
  have last := seg.relast (queues.nodup k) (some x)
  have lastIn : ∀ y, (lists k).getLast? = some y → y ∈ lists k := fun y => mem_of_getLast?
  refine ⟨⟨update (relink d.flink (lists k).getLast? (some x)) x none, update d.blink x (d.tail k),
    update d.head k ((lists k).head?.or (some x)), update d.tail k (some x)⟩, ?_,
    fun j => ?_, fun j => ?_, fun j => ?_, fun j => ?_, fun i j y => ?_⟩
  · rw [Dq.addlast, head, tail]
    rcases eq_nil_or_concat (lists k) with none | ⟨front, t, whole⟩
    · simp [none, relink]
    · have apart : t ≠ x := fun same => fresh k (by simp [whole, same])
      simp [head, whole, relink, update_comm apart]
  · by_cases same : j = k
    · subst same
      simp
    · simp [same, queues.head]
  · by_cases same : j = k
    · subst same
      simp
    · simp [same, queues.tail]
  · by_cases same : j = k
    · subst same
      rw [update_self, segment_append]
      refine ⟨last.congr fun y inside => ?_, by simp [tail], by simp, trivial⟩
      have apart : y ≠ x := by grind
      simp [apart]
    rw [update_of_ne same]
    refine (queues.segment j).congr fun y inside => ?_
    have apart : y ≠ x := by grind
    have foreign : (lists k).getLast? ≠ some y := fun here =>
      same (queues.alone j k y inside (lastIn y here))
    simp [apart, relink_ne foreign]
  · have := queues.nodup j
    by_cases same : j = k <;> grind
  · have := queues.alone i j y
    grind

end Dq
