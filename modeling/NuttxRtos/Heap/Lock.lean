import Mathlib.Algebra.Order.Ring.Int

/-!
# The lock of the heap

`mm_takesemaphore` makes a recursive lock of a semaphore. It begins its wait again when a signal has
ended it; when the wait was cancelled it goes on as if it had got the count.
-/

namespace NuttxRtos.Heap.Lock

open List

open Function (update)

variable {τ : Type}

/-- The semaphore with the tasks that wait for it, `mm_holder` and `mm_counts_held`. Tasks in a call
are before `nxsem_wait`, before the claim or before `nxsem_post`; `depth` counts the takes that have
returned less the gives. -/
structure State (τ : Type) where
  avail : ℕ := 1
  waiting : List τ := []
  holder : Option τ := none
  countsHeld : ℕ := 0
  calls : List τ := []
  claims : List τ := []
  posts : List τ := []
  depth : τ → ℕ := fun _ => 0

def State.semcount (s : State τ) : ℤ := s.avail - s.waiting.length

/-- The steps of `mm_takesemaphore` and `mm_trysemaphore` (`tries`), the ends of a wait, and the
steps of `mm_givesemaphore`. -/
inductive Action (τ : Type) where
  | take (tries : Bool) (t : τ)
  | wait (t : τ)
  | interrupt (t : τ)
  | cancel (t : τ)
  | claim (t : τ)
  | give (t : τ)
  | post (t woken : τ)

variable [DecidableEq τ]

/-- A task in a call makes no other call. -/
def step (s : State τ) : Action τ → State τ
  | .take tries t =>
    if t ∈ s.calls ++ s.waiting ++ s.claims ++ s.posts then s
    else if s.holder = some t then
      { s with countsHeld := s.countsHeld + 1, depth := update s.depth t (s.depth t + 1) }
    else if !tries then { s with calls := t :: s.calls }
    else if 0 < s.avail then { s with avail := s.avail - 1, claims := t :: s.claims }
    else s
  | .wait t =>
    if t ∉ s.calls then s
    else if 0 < s.avail then
      { s with avail := s.avail - 1, calls := s.calls.erase t, claims := t :: s.claims }
    else { s with waiting := t :: s.waiting, calls := s.calls.erase t }
  | .interrupt t =>
    if t ∈ s.waiting then { s with waiting := s.waiting.erase t, calls := t :: s.calls } else s
  | .cancel t =>
    if t ∈ s.waiting then { s with waiting := s.waiting.erase t, claims := t :: s.claims } else s
  | .claim t =>
    if t ∈ s.claims then
      { s with
        claims := s.claims.erase t, holder := some t, countsHeld := 1
        depth := update s.depth t (s.depth t + 1) }
    else s
  | .give t =>
    if t ∈ s.calls ++ s.waiting ++ s.claims ++ s.posts ∨ s.depth t = 0 then s
    else if 1 < s.countsHeld then
      { s with countsHeld := s.countsHeld - 1, depth := update s.depth t (s.depth t - 1) }
    else
      { s with
        holder := none, countsHeld := 0, posts := t :: s.posts
        depth := update s.depth t (s.depth t - 1) }
  | .post t woken =>
    if t ∉ s.posts then s
    else if s.waiting = [] then { s with avail := s.avail + 1, posts := s.posts.erase t }
    else if woken ∈ s.waiting then
      { s with
        posts := s.posts.erase t, waiting := s.waiting.erase woken, claims := woken :: s.claims }
    else s

inductive Run (ok : Action τ → Prop) : State τ → Prop
  | init : Run ok {}
  | step {s : State τ} {a : Action τ} : Run ok s → ok a → Run ok (step s a)

def NotCanceled : Action τ → Prop
  | .cancel _ => False
  | _ => True

structure Inv (s : State τ) : Prop where
  free : s.holder = none → s.avail + s.claims.length + s.posts.length = 1
  held : s.holder ≠ none → s.avail + s.claims.length + s.posts.length = 0 ∧ 0 < s.countsHeld
  waits : s.waiting ≠ [] → s.avail = 0
  depth : ∀ t, s.depth t = if s.holder = some t then s.countsHeld else 0

variable {s : State τ}

theorem Inv.acquire (inv : Inv s) (avail : 0 < s.avail) (t : τ) (calls : List τ) :
    Inv { s with avail := s.avail - 1, calls, claims := t :: s.claims } where
  free none := by
    have := inv.free none
    dsimp only [length_cons]
    omega
  held some := by
    have := inv.held some
    omega
  waits some := by
    have := inv.waits some
    omega
  depth := inv.depth

theorem Inv.step (inv : Inv s) {a : Action τ} (ok : NotCanceled a) : Inv (step s a) := by
  have depth := inv.depth
  cases a <;> simp only [Lock.step]
  case take tries t =>
    split
    · exact inv
    split
    · next mine =>
      refine ⟨inv.free, fun some => ⟨(inv.held some).1, Nat.succ_pos _⟩, inv.waits, fun u => ?_⟩
      by_cases same : u = t <;> simp_all [Ne.symm]
    split
    · exact { inv with }
    split
    · next avail => exact inv.acquire avail t _
    · exact inv
  case wait t =>
    split
    · exact inv
    split
    · next avail => exact inv.acquire avail t _
    · next empty => exact { inv with waits := fun _ => Nat.eq_zero_of_not_pos empty }
  case interrupt t =>
    split
    · next waits => exact { inv with waits := fun _ => inv.waits (ne_nil_of_mem waits) }
    · exact inv
  case cancel t => exact ok.elim
  case claim t =>
    split
    · next claims =>
      have length := length_erase_of_mem claims
      have some := length_pos_of_mem claims
      have none : s.holder = none := by
        by_contra held
        have := inv.held held
        omega
      have := inv.free none
      refine ⟨nofun, fun _ => ⟨?_, Nat.one_pos⟩, inv.waits, fun u => ?_⟩
      · dsimp only
        omega
      · by_cases same : u = t <;> simp_all [Ne.symm]
    · exact inv
  case give t =>
    split
    · exact inv
    next gives =>
    have mine : s.holder = some t := by
      by_contra other
      simp_all
    obtain ⟨zero, held⟩ := inv.held (by simp [mine])
    split
    · refine ⟨inv.free, fun _ => ⟨zero, by dsimp only; omega⟩, inv.waits, fun u => ?_⟩
      by_cases same : u = t <;> simp_all [Ne.symm]
    refine ⟨fun _ => ?_, fun some => absurd rfl some, inv.waits, fun u => ?_⟩
    · dsimp only [length_cons]
      omega
    · by_cases same : u = t <;> simp_all [Ne.symm]
  case post t woken =>
    split
    · exact inv
    next posts =>
    have length := length_erase_of_mem (Decidable.not_not.1 posts)
    have some := length_pos_of_mem (Decidable.not_not.1 posts)
    have none : s.holder = none := by
      by_contra held
      have := inv.held held
      omega
    have := inv.free none
    split
    · next empty =>
      exact ⟨fun _ => by dsimp only; omega, fun held => absurd none held, (absurd empty ·), depth⟩
    split
    · next waits =>
      refine ⟨fun _ => ?_, fun held => absurd none held,
        fun _ => inv.waits (ne_nil_of_mem waits), depth⟩
      dsimp only [length_cons]
      omega
    · exact inv

theorem Run.inv (run : Run NotCanceled s) : Inv s := by
  induction run with
  | init => exact ⟨fun _ => rfl, nofun, nofun, fun _ => rfl⟩
  | step _ ok ih => exact ih.step ok

/-- One task at most has the lock; `mm_holder` names it and `mm_counts_held` is how often. The count
is 0 then, and 1 when no task has the lock, claims it or gives it back. -/
structure Exclusive (s : State τ) : Prop where
  one : ∀ t u, 0 < s.depth t → 0 < s.depth u → t = u
  holder : ∀ t, s.holder = some t ↔ 0 < s.depth t
  counts : ∀ t, 0 < s.depth t → s.countsHeld = s.depth t
  held : ∀ t, 0 < s.depth t → s.waiting = [] → s.semcount = 0
  free : (∀ t, s.depth t = 0) → s.waiting = [] → s.claims = [] → s.posts = [] → s.semcount = 1

theorem run_exclusive (run : Run NotCanceled s) : Exclusive s := by
  have inv := run.inv
  have holder (t : τ) : s.holder = some t ↔ 0 < s.depth t := by
    rw [inv.depth t]
    split
    · next mine => exact iff_of_true mine (inv.held (by simp [mine])).2
    · next other => exact iff_of_false other (Nat.lt_irrefl 0)
  refine ⟨fun t u mine other => ?_, holder, fun t mine => ?_, fun t mine empty => ?_,
    fun unheld empty claims posts => ?_⟩
  · exact Option.some.inj (((holder t).2 mine).symm.trans ((holder u).2 other))
  · rw [inv.depth t, if_pos ((holder t).2 mine)]
  · have zero := (inv.held (by simp [(holder t).2 mine])).1
    simp only [State.semcount, empty, length_nil]
    omega
  have none : s.holder = none := Option.eq_none_iff_forall_ne_some.2 fun t mine =>
    absurd ((holder t).1 mine) (by simp [unheld t])
  have one := inv.free none
  simp only [State.semcount, empty, claims, posts, length_nil] at one ⊢
  omega

/-- A task waits while another has the lock twice; its wait is interrupted, and it waits again. -/
theorem run_exclusive_nested : ∃ s : State Bool, Run NotCanceled s ∧ s.waiting = [true] ∧
    s.depth false = 2 ∧ Exclusive s := by
  have run : Run NotCanceled _ := ((((((((Run.init.step (a := .take false false) trivial).step
    (a := .wait false) trivial).step (a := .claim false) trivial).step (a := .take true false)
    trivial).step (a := .take false true) trivial).step (a := .wait true) trivial).step
    (a := .interrupt true) trivial).step (a := .wait true) trivial)
  exact ⟨_, run, by decide, by decide, run_exclusive run⟩

/-- The wait of a task is cancelled while another has the lock, and then both have it. -/
theorem both_hold : ∃ s : State Bool, Run (fun _ => True) s ∧ 0 < s.depth false ∧
    0 < s.depth true :=
  ⟨_, (((((((Run.init.step (a := .take false false) trivial).step (a := .wait false) trivial).step
    (a := .claim false) trivial).step (a := .take false true) trivial).step (a := .wait true)
    trivial).step (a := .cancel true) trivial).step (a := .claim true) trivial),
    by decide, by decide⟩

end NuttxRtos.Heap.Lock
