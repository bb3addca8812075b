import Mathlib.Algebra.Order.Ring.Int
import Mathlib.Data.List.Nodup

/-!
# Singly linked lists

A list threaded through a map `next`, with its head kept elsewhere.
-/

namespace Chain

open List Function

variable {μ : Type} {next next' : μ → Option μ} {head : Option μ} {a : μ} {l l₁ l₂ : List μ}

/-- From `head`, following `next`, one meets the elements of the list and then the end. -/
def Path (next : μ → Option μ) : Option μ → List μ → Prop
  | head, [] => head = none
  | head, a :: l => head = some a ∧ Path next (next a) l

theorem Path.congr (path : Path next head l) (same : ∀ b ∈ l, next' b = next b) :
    Path next' head l := by
  induction l generalizing head with
  | nil => exact path
  | cons b l ih =>
    refine ⟨path.1, ?_⟩
    rw [same b mem_cons_self]
    exact ih path.2 fun c hc => same c (mem_cons_of_mem b hc)

theorem Path.unique (first : Path next head l₁) (second : Path next head l₂) : l₁ = l₂ := by
  induction l₁ generalizing head l₂ with
  | nil =>
    cases l₂ with
    | nil => rfl
    | cons b l₂ =>
      rw [show head = none from first] at second
      cases second.1
  | cons b l₁ ih =>
    cases l₂ with
    | nil =>
      rw [show head = none from second] at first
      cases first.1
    | cons c l₂ =>
      have same := first.1.symm.trans second.1
      cases same
      rw [ih first.2 second.2]

theorem Path.suffix (path : Path next head (l₁ ++ a :: l₂)) : Path next (some a) (a :: l₂) := by
  induction l₁ generalizing head with
  | nil =>
    rw [← path.1]
    exact path
  | cons b l₁ ih => exact ih path.2

theorem Path.nodup (path : Path next head l) : l.Nodup := by
  induction l generalizing head with
  | nil => exact nodup_nil
  | cons b l ih =>
    refine nodup_cons.2 ⟨?_, ih path.2⟩
    intro again
    obtain ⟨l₁, l₂, rfl⟩ := append_of_mem again
    have longer := path.2.suffix.2.unique path.2
    have := congrArg List.length longer
    simp at this
    omega

theorem Path.head_eq (path : Path next head l) : head = l.head? := by
  cases l with
  | nil => exact path
  | cons b l => exact path.1

/-- The first element that meets a test. The search has no result when the fuel runs out. -/
def findFirst (next : μ → Option μ) (test : μ → Bool) : ℕ → Option μ → Option (Option μ)
  | 0, _ => none
  | _ + 1, none => some none
  | fuel + 1, some curr =>
    if test curr then some (some curr) else findFirst next test fuel (next curr)

variable {fuel : ℕ}

theorem Path.findFirst_eq {test : μ → Bool} (path : Path next head l)
    (enough : l.length < fuel) : findFirst next test fuel head = some (l.find? test) := by
  induction l generalizing head fuel with
  | nil =>
    obtain _ | fuel := fuel
    · cases enough
    rw [show head = none from path, findFirst, find?_nil]
  | cons b l ih =>
    obtain _ | fuel := fuel
    · cases enough
    rw [path.1, findFirst]
    cases found : test b with
    | true => simp [found]
    | false =>
      rw [find?_cons_of_neg (by simp [found])]
      exact ih path.2 (Nat.lt_of_succ_lt_succ enough)

theorem Path.cons (path : Path next head l) (linked : next a = head) :
    Path next (some a) (a :: l) :=
  ⟨rfl, linked.symm ▸ path⟩

/-! ## Removing an element -/

def lastOr (prev : Option μ) : List μ → Option μ
  | [] => prev
  | b :: l => lastOr (some b) l

@[simp] theorem lastOr_concat (prev : Option μ) (l : List μ) (b : μ) :
    lastOr prev (l ++ [b]) = some b := by
  induction l generalizing prev with
  | nil => rfl
  | cons c l ih => exact ih (some c)

variable {prev : Option μ} {b : μ}

theorem lastOr_mem (last : lastOr prev l = some b) : prev = some b ∨ b ∈ l := by
  induction l generalizing prev with
  | nil => exact .inl last
  | cons c l ih =>
    cases ih last with
    | inl same =>
      cases same
      exact .inr mem_cons_self
    | inr inside => exact .inr (mem_cons_of_mem c inside)

theorem Path.last (path : Path next head l) (nonempty : l ≠ []) (prev : Option μ) :
    ∃ b, lastOr prev l = some b ∧ next b = none := by
  induction l generalizing head prev with
  | nil => exact absurd rfl nonempty
  | cons b l ih =>
    cases l with
    | nil => exact ⟨b, rfl, path.2⟩
    | cons c l => exact ih path.2 (cons_ne_nil c l) (some b)

theorem Path.graft (path : Path next head (l₁ ++ a :: l)) (same : ∀ b ∈ l₁, next' b = next b)
    (rest : Path next' (next' a) l₂) : Path next' head (l₁ ++ a :: l₂) := by
  induction l₁ generalizing head with
  | nil => exact ⟨path.1, rest⟩
  | cons b l₁ ih =>
    refine ⟨path.1, ?_⟩
    rw [same b mem_cons_self]
    exact ih path.2 fun c hc => same c (mem_cons_of_mem b hc)

variable [DecidableEq μ]

/-- The search for the element before `a`, or before the end. It has no result when the fuel runs
out. -/
def findPrev (next : μ → Option μ) (a : μ) : ℕ → Option μ → Option μ → Option (Option μ)
  | 0, _, _ => none
  | _ + 1, prev, none => some prev
  | fuel + 1, prev, some curr =>
    if curr = a then some prev else findPrev next a fuel (some curr) (next curr)

/-- The same search, which also says whether the element was found. -/
def findLink (next : μ → Option μ) (a : μ) : ℕ → Option μ → Option μ → Option (Option μ × Bool)
  | 0, _, _ => none
  | _ + 1, prev, none => some (prev, false)
  | fuel + 1, prev, some curr =>
    if curr = a then some (prev, true) else findLink next a fuel (some curr) (next curr)

theorem findPrev_eq (fuel : ℕ) (prev head : Option μ) :
    findPrev next a fuel prev head = (findLink next a fuel prev head).map Prod.fst := by
  induction fuel generalizing prev head with
  | zero => rfl
  | succ fuel ih =>
    cases head with
    | none => rfl
    | some curr =>
      rw [findPrev, findLink, ih]
      split <;> rfl

theorem findLink_skip (path : Path next head (l₁ ++ l₂)) (first : a ∉ l₁) (fuel : ℕ) :
    findLink next a (l₁.length + fuel) prev head =
      findLink next a fuel (lastOr prev l₁) l₂.head? := by
  induction l₁ generalizing head prev with
  | nil =>
    rw [length_nil, Nat.zero_add, path.head_eq]
    rfl
  | cons b l₁ ih =>
    have other : b ≠ a := fun same => first (same ▸ mem_cons_self)
    rw [length_cons, Nat.succ_add, path.1, findLink, if_neg other, lastOr]
    exact ih path.2 fun inside => first (mem_cons_of_mem b inside)

section

variable (path : Path next head (l₁ ++ a :: l₂)) (first : a ∉ l₁) (enough : l₁.length < fuel)

include path first enough

theorem findLink_of_mem : findLink next a fuel prev head = some (lastOr prev l₁, true) := by
  obtain ⟨k, rfl⟩ := Nat.exists_eq_add_of_lt enough
  rw [Nat.add_assoc, findLink_skip path first, head?_cons, findLink, if_pos rfl]

theorem findPrev_of_mem : findPrev next a fuel prev head = some (lastOr prev l₁) := by
  rw [findPrev_eq, findLink_of_mem path first enough]
  rfl

end

theorem findPrev_of_not_mem (path : Path next head l) (missing : a ∉ l) (enough : l.length < fuel) :
    findPrev next a fuel prev head = some (lastOr prev l) := by
  obtain ⟨k, rfl⟩ := Nat.exists_eq_add_of_lt enough
  rw [← append_nil l] at path
  rw [findPrev_eq, Nat.add_assoc, findLink_skip path missing]
  rfl

/-- The head after `a` was unlinked behind `prev`. -/
def unlinkHead (next : μ → Option μ) (head : Option μ) (a : μ) : Option μ → Option μ
  | none => next a
  | some _ => head

/-- The links after `a` was unlinked behind `prev`. -/
def unlinkNext (next : μ → Option μ) (a : μ) : Option μ → μ → Option μ
  | none => update next a none
  | some prev => update (update next prev (next a)) a none

theorem unlinkNext_self (prev : Option μ) : unlinkNext next a prev a = none := by
  cases prev <;> simp [unlinkNext]

theorem unlinkNext_other (other : b ≠ a) (not_prev : prev ≠ some b) :
    unlinkNext next a prev b = next b := by
  cases prev with
  | none => simp [unlinkNext, other]
  | some prev =>
    have : b ≠ prev := fun same => not_prev (by rw [same])
    simp [unlinkNext, other, this]

/-- Unlinking an element without a link, which is not in the list, behind the last one changes
nothing. -/
theorem Path.unlink_nothing (path : Path next head l) (no_link : next a = none) :
    unlinkNext next a (lastOr none l) = next ∧ unlinkHead next head a (lastOr none l) = head := by
  have self : update next a none = next := by
    rw [← no_link, update_eq_self]
  cases l with
  | nil => exact ⟨self, no_link.trans (show head = none from path).symm⟩
  | cons b l =>
    obtain ⟨last, hlast, ends⟩ := path.last (cons_ne_nil b l) none
    rw [hlast]
    refine ⟨?_, rfl⟩
    rw [unlinkNext, no_link, ← ends, update_eq_self, ends, self]

theorem Path.unlink (path : Path next head (l₁ ++ a :: l₂)) :
    Path (unlinkNext next a (lastOr none l₁)) (unlinkHead next head a (lastOr none l₁))
      (l₁ ++ l₂) := by
  have nodup := path.nodup
  rcases eq_nil_or_concat l₁ with rfl | ⟨l₀, prev, rfl⟩
  · refine path.2.congr fun b hb => unlinkNext_other ?_ (by simp [lastOr])
    rintro rfl
    exact (nodup_cons.1 nodup).1 hb
  rw [concat_eq_append, append_assoc, singleton_append] at nodup path
  simp only [nodup_append, nodup_cons, mem_cons, not_or] at nodup
  obtain ⟨_, ⟨⟨prev_a, prev_rest⟩, a_rest, _⟩, apart⟩ := nodup
  have next_a : unlinkNext next a (some prev) prev = next a := by
    simp [unlinkNext, prev_a]
  simp only [concat_eq_append, append_assoc, singleton_append, lastOr_concat, unlinkHead]
  refine path.graft (fun b hb => unlinkNext_other ?_ ?_) ?_
  · exact apart b hb a (.inr (.inl rfl))
  · simpa using (apart b hb prev (.inl rfl)).symm
  rw [next_a]
  have tail := path.suffix.2.2
  refine tail.congr fun b hb => unlinkNext_other ?_ ?_
  · rintro rfl
    exact a_rest hb
  simp only [ne_eq, Option.some.injEq]
  rintro rfl
  exact prev_rest hb

end Chain
