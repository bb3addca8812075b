import NuttxRtos.Lib.WaitCount

/-!
# The counts of semaphores

The functions of `sched/semaphore` that change `semcount`. Each is one step, except where it may be
switched out with the count not yet adjusted: `nxsem_canceled` restores the priority of the holders
before `nxsem_wait_irq` and `nxsem_recover` increment the count, and `nxsem_reset` makes a series of
posts.
-/

namespace NuttxRtos.Semaphore

open List

open Function (update update_eq_self_iff update_of_ne update_self)

open WaitCount

def semValueMax : ℤ := 0x7fff

/-- The semaphores, `g_waitingforsemaphore`, and `waitsem` of every task. A task whose wait is being
cancelled is recorded with its semaphore, and a reset with the counts it still has to give out.
Successful waits and posts are counted, and a reset changes the initial count. -/
structure State (τ κ : Type) where
  semcount : κ → ℤ
  waiting : List τ
  waitsem : τ → Option κ
  cancelling : List (τ × κ)
  resetting : List (κ × ℕ)
  initial : κ → ℤ
  waits : κ → ℤ
  posts : κ → ℤ

section

variable {τ κ : Type} [DecidableEq τ] [DecidableEq κ]

def bump (f : κ → ℤ) (k : κ) (n : ℤ) : κ → ℤ := Function.update f k (f k + n)

def wait (s : State τ κ) (t : τ) (k : κ) (pos : ℕ) : State τ κ :=
  if 0 < s.semcount k then
    { s with
      semcount := bump s.semcount k (-1)
      waitsem := Function.update s.waitsem t none
      waits := bump s.waits k 1 }
  else
    { s with
      semcount := bump s.semcount k (-1)
      waitsem := Function.update s.waitsem t (some k)
      waiting := s.waiting.take pos ++ t :: s.waiting.drop pos }

/-- `nxsem_trywait`, with which `nxsem_timedwait` begins. -/
def trywait (s : State τ κ) (t : τ) (k : κ) : State τ κ :=
  if 0 < s.semcount k then
    { s with
      semcount := bump s.semcount k (-1)
      waitsem := Function.update s.waitsem t none
      waits := bump s.waits k 1 }
  else s

/-- `nxsem_post`. The first task that waits for the semaphore gets the count. -/
def post (s : State τ κ) (k : κ) : State τ κ :=
  if semValueMax ≤ s.semcount k then s
  else
    let s' := { s with semcount := bump s.semcount k 1, posts := bump s.posts k 1 }
    if s'.semcount k ≤ 0 then
      match s.waiting.find? fun t => s.waitsem t = some k with
      | none => s'
      | some stcb =>
        { s' with
          waitsem := Function.update s.waitsem stcb none
          waiting := s.waiting.erase stcb
          waits := bump s.waits k 1 }
    else s'

/-- `nxsem_wait_irq` and `nxsem_recover` up to `nxsem_canceled`, which is given `waitsem`. -/
def cancelStart (s : State τ κ) (t : τ) : Option (State τ κ) :=
  if t ∈ s.waiting then
    (s.waitsem t).map fun k => { s with cancelling := (t, k) :: s.cancelling }
  else some s

/-- `nxsem_wait_irq` and `nxsem_recover` from there on. The task leaves the list, to run again or to
be restarted. -/
def cancelFinish (s : State τ κ) (t : τ) (k : κ) : State τ κ :=
  { s with
    semcount := bump s.semcount k 1
    waitsem := Function.update s.waitsem t none
    waiting := s.waiting.erase t
    cancelling := s.cancelling.erase (t, k) }

/-- One round of the loop of `nxsem_reset`, or its end. -/
def resetStep (s : State τ κ) (k : κ) (n : ℕ) : State τ κ :=
  let s' := { s with resetting := s.resetting.erase (k, n) }
  if s.semcount k < 0 ∧ 0 < n then
    { post s' k with resetting := (k, n - 1) :: s'.resetting }
  else if 0 ≤ s.semcount k then
    { s' with
      semcount := Function.update s.semcount k n
      initial := bump s.initial k (n - s.semcount k) }
  else s'

/-- `nxtask_terminate` takes the task off the list and makes its state invalid; `nxsem_recover`,
which it calls afterwards, does nothing in that state. -/
def terminate (s : State τ κ) (t : τ) : State τ κ := { s with waiting := s.waiting.erase t }

inductive Op (τ κ : Type) where
  | wait (t : τ) (k : κ) (pos : ℕ)
  | trywait (t : τ) (k : κ)
  | post (k : κ)
  | cancelStart (t : τ)
  | cancelFinish (t : τ) (k : κ)
  | reset (k : κ) (count : ℕ)
  | resetStep (k : κ) (count : ℕ)
  | terminate (t : τ)

def step (s : State τ κ) : Op τ κ → Option (State τ κ)
  | .wait t k pos => some (wait s t k pos)
  | .trywait t k => some (trywait s t k)
  | .post k => some (post s k)
  | .cancelStart t => cancelStart s t
  | .cancelFinish t k => some (cancelFinish s t k)
  | .reset k n => some { s with resetting := (k, n) :: s.resetting }
  | .resetStep k n => some (resetStep s k n)
  | .terminate t => some (terminate s t)

/-- A task that is blocked makes no call, and what was begun is finished. -/
def Valid (s : State τ κ) : Op τ κ → Prop
  | .wait t _ _ | .trywait t _ => t ∉ s.waiting
  | .cancelFinish t k => (t, k) ∈ s.cancelling
  | .resetStep k n => (k, n) ∈ s.resetting
  | .post _ | .cancelStart _ | .reset _ _ | .terminate _ => True

instance (s : State τ κ) (op : Op τ κ) : Decidable (Valid s op) :=
  match op with
  | .wait t _ _ | .trywait t _ => inferInstanceAs (Decidable (t ∉ s.waiting))
  | .cancelFinish t k => inferInstanceAs (Decidable ((t, k) ∈ s.cancelling))
  | .resetStep k n => inferInstanceAs (Decidable ((k, n) ∈ s.resetting))
  | .post _ | .cancelStart _ | .reset _ _ | .terminate _ => .isTrue trivial

def initialState (initial : κ → ℕ) : State τ κ where
  semcount := fun k => initial k
  waiting := []
  waitsem := fun _ => none
  cancelling := []
  resetting := []
  initial := fun k => initial k
  waits := fun _ => 0
  posts := fun _ => 0

inductive Run (condition : State τ κ → Op τ κ → Prop) : State τ κ → Prop where
  | init (initial : κ → ℕ) : Run condition (initialState initial)
  | step {s s' : State τ κ} (run : Run condition s) (op : Op τ κ) (valid : Valid s op)
      (allowed : condition s op) (returns : step s op = some s') : Run condition s'

/-- A post on the semaphore gives the count to no task whose wait is being cancelled. -/
def Undisturbed (s : State τ κ) (k : κ) : Prop :=
  ∀ stcb, (s.waiting.find? fun t => s.waitsem t = some k) = some stcb → (stcb, k) ∉ s.cancelling

/-- While the wait of a task is being cancelled, no post gives it the count and nothing else cancels
it; and no task is deleted while it waits. -/
def Regular (s : State τ κ) : Op τ κ → Prop
  | .post k => s.semcount k < 0 → Undisturbed s k
  | .resetStep k _ => s.semcount k < 0 → Undisturbed s k
  | .cancelStart t => ∀ k, (t, k) ∉ s.cancelling
  | .terminate t => t ∉ s.waiting
  | _ => True

def available (s : State τ κ) (k : κ) : ℤ := s.initial k - s.waits k + s.posts k

/-- The waiting tasks account for the difference between the available count and `semcount`, nobody
waits while a count is available, each has its semaphore in `waitsem`, and the tasks whose wait is
being cancelled are still waiting. -/
structure Inv (s : State τ κ) : Prop where
  counted : Counted s.waiting s.waitsem fun k => available s k - s.semcount k
  nonneg : ∀ k, 0 ≤ available s k
  exclusive : ∀ k, s.semcount k = available s k ∨ available s k = 0
  waits : ∀ t ∈ s.waiting, ∃ k, s.waitsem t = some k
  cancelling : ∀ t k, (t, k) ∈ s.cancelling → t ∈ s.waiting ∧ s.waitsem t = some k
  once : s.cancelling.Nodup

variable {s s' : State τ κ} {t : τ} {k : κ} {pos n : ℕ}

section

variable (inv : Inv s)
include inv

section

omit [DecidableEq τ]

theorem Inv.semcount_le (k : κ) : s.semcount k ≤ available s k := by
  have count := inv.counted.count_eq k
  omega

theorem Inv.full (nonneg : 0 ≤ s.semcount k) : s.semcount k = available s k := by
  have le := inv.semcount_le k
  cases inv.exclusive k with
  | inl same => exact same
  | inr none_left => omega

theorem Inv.none_available (low : s.semcount k ≤ 0) : available s k = 0 := by
  have nonneg := inv.nonneg k
  cases inv.exclusive k with
  | inl same => omega
  | inr zero => exact zero

theorem Inv.negative (member : t ∈ s.waiting) (on : s.waitsem t = some k) :
    s.semcount k < 0 := by
  have count := inv.counted.count_eq k
  have positive : 0 < s.waiting.countP fun u => s.waitsem u = some k :=
    countP_pos_iff.2 ⟨t, member, by simpa using on⟩
  by_contra nonneg
  have full := inv.full (Int.not_lt.1 nonneg)
  omega

theorem Inv.find (negative : s.semcount k < 0) :
    ∃ t, (s.waiting.find? fun t => s.waitsem t = some k) = some t ∧ t ∈ s.waiting ∧
      s.waitsem t = some k := by
  have nonneg := inv.nonneg k
  exact inv.counted.find_isSome (by omega)

theorem Inv.change (full : s.semcount k = available s k)
    (full' : s'.semcount k = available s' k) (nonneg : 0 ≤ available s' k)
    (others : ∀ j, j ≠ k → s'.semcount j = s.semcount j ∧ available s' j = available s j)
    (waiting : s'.waiting = s.waiting) (on : ∀ t ∈ s.waiting, s'.waitsem t = s.waitsem t)
    (cancelling : s'.cancelling = s.cancelling) : Inv s' := by
  have counts : ∀ j, available s' j - s'.semcount j = available s j - s.semcount j := by
    intro j
    by_cases same : j = k
    · subst same
      omega
    · rw [(others j same).1, (others j same).2]
  refine ⟨⟨?_, fun j => ?_⟩, fun j => ?_, fun j => ?_, ?_, ?_, ?_⟩
  · rw [waiting]
    exact inv.counted.nodup
  · rw [counts, waiting, countP_congr on]
    exact inv.counted.count_eq j
  · by_cases same : j = k
    · rwa [same]
    · rw [(others j same).2]
      exact inv.nonneg j
  · by_cases same : j = k
    · rw [same]
      exact .inl full'
    · rw [(others j same).1, (others j same).2]
      exact inv.exclusive j
  · intro t member
    rw [waiting] at member
    rw [on t member]
    exact inv.waits t member
  · intro t j member
    rw [cancelling] at member
    obtain ⟨in_t, on_t⟩ := inv.cancelling t j member
    rw [waiting, on t in_t]
    exact ⟨in_t, on_t⟩
  · rw [cancelling]
    exact inv.once

end

theorem take_inv (absent : t ∉ s.waiting) (positive : 0 < s.semcount k) :
    Inv { s with
      semcount := bump s.semcount k (-1)
      waitsem := update s.waitsem t none
      waits := bump s.waits k 1 } := by
  have full := inv.full (Int.le_of_lt positive)
  refine inv.change full ?_ ?_ (fun j other => by simp [available, bump, other]) rfl
    (fun u member => update_of_ne (fun same : u = t => absent (same ▸ member)) _ _) rfl
  all_goals
    simp only [available, bump, update_self] at full ⊢
    omega

theorem block_inv (absent : t ∉ s.waiting) (none_left : s.semcount k ≤ 0) :
    Inv { s with
      semcount := bump s.semcount k (-1)
      waitsem := update s.waitsem t (some k)
      waiting := s.waiting.take pos ++ t :: s.waiting.drop pos } := by
  have zero := inv.none_available none_left
  have inserted : ∀ u,
      u ∈ s.waiting.take pos ++ t :: s.waiting.drop pos ↔ u = t ∨ u ∈ s.waiting := by
    intro u
    rw [perm_middle.mem_iff, mem_cons, take_append_drop]
  refine ⟨?_, inv.nonneg, fun j => ?_, fun u in_u => ?_, fun u j member => ?_, inv.once⟩
  · convert inv.counted.add absent pos using 1
    funext j
    by_cases same : j = k
    · subst same
      simp [available, bump]
      omega
    · simp [available, bump, same]
  · by_cases same : j = k
    · subst same
      exact .inr zero
    · simpa [available, bump, same] using inv.exclusive j
  · by_cases same : u = t
    · exact ⟨k, by simp [same]⟩
    · obtain ⟨j, on⟩ := inv.waits u (((inserted u).1 in_u).resolve_left same)
      exact ⟨j, by simpa [same] using on⟩
  obtain ⟨in_u, on⟩ := inv.cancelling u j member
  have other : u ≠ t := fun same => absent (same ▸ in_u)
  exact ⟨(inserted u).2 (.inr in_u), by simpa [other] using on⟩

theorem unblock_inv (member : t ∈ s.waiting) (on : s.waitsem t = some k)
    (negative : s.semcount k < 0) (cancelling : List (τ × κ)) (once : cancelling.Nodup)
    (others : ∀ u j, (u, j) ∈ cancelling → (u, j) ∈ s.cancelling ∧ u ≠ t) (n : ℤ) :
    Inv { s with
      semcount := bump s.semcount k 1
      waitsem := update s.waitsem t none
      waiting := s.waiting.erase t
      cancelling := cancelling
      waits := bump s.waits k n
      posts := bump s.posts k n } := by
  have kept : ∀ j, s.initial j - bump s.waits k n j + bump s.posts k n j = available s j := by
    intro j
    by_cases same : j = k
    · subst same
      simp only [available, bump, update_self]
      omega
    · simp [available, bump, same]
  refine ⟨?_, fun j => ?_, fun j => ?_, fun u in_u => ?_, fun u j in_u => ?_, once⟩
  · convert inv.counted.remove member on using 1
    funext j
    rw [available, kept j]
    by_cases same : j = k
    · subst same
      simp only [bump, update_self]
      omega
    · simp [bump, same]
  · rw [available, kept j]
    exact inv.nonneg j
  · rw [available, kept j]
    by_cases same : j = k
    · subst same
      exact .inr (inv.none_available (Int.le_of_lt negative))
    · simpa [bump, same] using inv.exclusive j
  · have other : u ≠ t := fun same => inv.counted.nodup.not_mem_erase (same ▸ in_u)
    obtain ⟨j, on_u⟩ := inv.waits u (mem_of_mem_erase in_u)
    exact ⟨j, by simpa [other] using on_u⟩
  obtain ⟨old, other⟩ := others u j in_u
  obtain ⟨in_u, on_u⟩ := inv.cancelling u j old
  exact ⟨(mem_erase_of_ne other).2 in_u, by simpa [other] using on_u⟩

theorem post_inv (regular : s.semcount k < 0 → Undisturbed s k) : Inv (post s k) := by
  unfold post
  split
  · exact inv
  dsimp only
  split
  · rename_i low
    have negative : s.semcount k < 0 := by
      simp only [bump, update_self] at low
      omega
    obtain ⟨stcb, found, member, on⟩ := inv.find negative
    rw [found]
    refine unblock_inv inv member on negative s.cancelling inv.once (fun u j in_u => ⟨in_u, ?_⟩) 1
    rintro rfl
    have same := (inv.cancelling u j in_u).2
    rw [on, Option.some.injEq] at same
    subst same
    exact regular negative u found in_u
  rename_i high
  have nonneg : 0 ≤ s.semcount k := by
    simp only [bump, update_self] at high
    omega
  have full := inv.full nonneg
  refine inv.change full ?_ ?_ (fun j other => by simp [available, bump, other]) rfl
    (fun _ _ => rfl) rfl
  all_goals
    simp only [available, bump, update_self] at full ⊢
    omega

theorem cancelFinish_inv (begun : (t, k) ∈ s.cancelling) : Inv (cancelFinish s t k) := by
  obtain ⟨member, on⟩ := inv.cancelling t k begun
  have unblocked := unblock_inv inv member on (inv.negative member on) (s.cancelling.erase (t, k))
    (inv.once.erase _) (fun u j in_u => ?_) 0
  · simpa [cancelFinish, bump, update_eq_self_iff] using unblocked
  obtain ⟨other, old⟩ := inv.once.mem_erase_iff.1 in_u
  refine ⟨old, ?_⟩
  rintro rfl
  have same := (inv.cancelling u j old).2
  rw [on, Option.some.injEq] at same
  exact other (by rw [same])

theorem resetStep_inv (regular : s.semcount k < 0 → Undisturbed s k) :
    Inv (resetStep s k n) := by
  have dropped : Inv { s with resetting := s.resetting.erase (k, n) } := { inv with }
  unfold resetStep
  split
  · exact { post_inv dropped regular with }
  split
  · rename_i nonneg
    have full := inv.full nonneg
    refine inv.change full ?_ ?_ (fun j other => by simp [available, bump, other]) rfl
      (fun _ _ => rfl) rfl
    all_goals
      simp only [available, bump, update_self] at full ⊢
      omega
  · exact dropped

theorem step_inv (op : Op τ κ) (valid : Valid s op) (regular : Regular s op) :
    ∃ s', step s op = some s' ∧ Inv s' := by
  cases op with
  | wait t k pos =>
    refine ⟨_, rfl, ?_⟩
    unfold wait
    split
    · rename_i positive
      exact take_inv inv valid positive
    · rename_i none_left
      exact block_inv inv valid (Int.not_lt.1 none_left)
  | trywait t k =>
    refine ⟨_, rfl, ?_⟩
    unfold trywait
    split
    · rename_i positive
      exact take_inv inv valid positive
    · exact inv
  | post k => exact ⟨_, rfl, post_inv inv regular⟩
  | cancelStart t =>
    rw [step, cancelStart]
    split
    · rename_i member
      obtain ⟨k, on⟩ := inv.waits t member
      rw [on]
      refine ⟨_, rfl, inv.counted, inv.nonneg, inv.exclusive, inv.waits, fun u j in_u => ?_,
        nodup_cons.2 ⟨regular k, inv.once⟩⟩
      cases mem_cons.1 in_u with
      | inl same =>
        cases same
        exact ⟨member, on⟩
      | inr old => exact inv.cancelling u j old
    · exact ⟨s, rfl, inv⟩
  | cancelFinish t k => exact ⟨_, rfl, cancelFinish_inv inv valid⟩
  | reset k n =>
    exact ⟨_, rfl, inv.counted, inv.nonneg, inv.exclusive, inv.waits, inv.cancelling, inv.once⟩
  | resetStep k n => exact ⟨_, rfl, resetStep_inv inv regular⟩
  | terminate t =>
    refine ⟨_, rfl, ?_⟩
    rw [terminate, erase_of_not_mem regular]
    exact inv

end

omit [DecidableEq τ] in
theorem initialState_inv (initial : κ → ℕ) : Inv (initialState initial : State τ κ) where
  counted := ⟨nodup_nil, fun k => by simp [available, initialState]⟩
  nonneg := fun k => by simp [available, initialState]
  exclusive := fun k => by simp [available, initialState]
  waits := by simp [initialState]
  cancelling := by simp [initialState]
  once := nodup_nil

theorem Run.inv (run : Run Regular s) : Inv s := by
  induction run with
  | init initial => exact initialState_inv initial
  | step _ op valid regular returns ih =>
    obtain ⟨s', returned, inv⟩ := step_inv ih op valid regular
    rw [returns, Option.some.injEq] at returned
    exact returned ▸ inv

/-- In regular runs: a negative `semcount` counts the waiting tasks, and nobody waits otherwise;
waits and posts account for the available count; and every regular step returns. -/
theorem run_semcount (run : Run Regular s) :
    (∀ k, s.semcount k < 0 →
      ((s.waiting.countP fun t => s.waitsem t = some k : ℕ) : ℤ) = -s.semcount k) ∧
    (∀ k, 0 ≤ s.semcount k → ∀ t ∈ s.waiting, s.waitsem t ≠ some k) ∧
    (∀ k, s.waits k - s.posts k = s.initial k - max (s.semcount k) 0) ∧
    ∀ op, Valid s op → Regular s op → ∃ s', step s op = some s' := by
  have inv := run.inv
  refine ⟨fun k negative => ?_, fun k nonneg t member on => ?_, fun k => ?_, ?_⟩
  · have count := inv.counted.count_eq k
    have zero := inv.none_available (Int.le_of_lt negative)
    omega
  · exact absurd (inv.negative member on) (Int.not_lt.2 nonneg)
  · have nonneg := inv.nonneg k
    have le := inv.semcount_le k
    have exclusive := inv.exclusive k
    unfold available at nonneg le exclusive
    omega
  intro op valid regular
  obtain ⟨s', returns, _⟩ := step_inv inv op valid regular
  exact ⟨s', returns⟩

end

/-- A semaphore that is used as a lock, and three tasks. -/
def oneLock : State (Fin 3) Unit := initialState fun _ => 1

/-- Two tasks wait, the wait of the first is cancelled and the second gets the count. -/
theorem run_semcount_cancelled :
    ∃ s : State (Fin 3) Unit, Run Regular s ∧ s.semcount () = 0 ∧ s.waiting = [] ∧
      s.waits () - s.posts () = 1 := by
  have first : Run Regular oneLock := .init _
  have held := first.step (.wait 0 () 0) (by decide) trivial rfl
  have waits := held.step (.wait 1 () 0) (by decide) trivial rfl
  have both := waits.step (.wait 2 () 1) (by decide) trivial rfl
  have begun := both.step (.cancelStart 1) trivial (fun _ => not_mem_nil) rfl
  have ended := begun.step (.cancelFinish 1 ()) (by decide) trivial rfl
  have posted := ended.step (.post ()) trivial (fun _ _ _ => not_mem_nil) rfl
  exact ⟨_, posted, rfl, rfl, (run_semcount posted).2.2.1 ()⟩

/-- A waiting task is signalled, and given the count by a post before `nxsem_wait_irq` increments
it: the semaphore ends with a count that nobody posted. And the count of a task that is deleted
while it waits is never restored. -/
theorem post_during_cancel_adds_count :
    (∃ s : State (Fin 3) Unit, Run (fun _ _ => True) s ∧ s.cancelling = [] ∧
      s.semcount () = 1 ∧ s.waits () = 2 ∧ s.posts () = 1 ∧ s.initial () = 1) ∧
    ∃ s : State (Fin 3) Unit, Run (fun _ _ => True) s ∧ s.waiting = [] ∧
      s.semcount () = 0 ∧ s.waits () = 1 ∧ s.posts () = 1 ∧ s.initial () = 1 := by
  have first : Run (fun _ _ => True) oneLock := .init _
  have held := first.step (.wait 0 () 0) (by decide) trivial rfl
  have waits := held.step (.wait 1 () 0) (by decide) trivial rfl
  constructor
  · have begun := waits.step (.cancelStart 1) trivial trivial rfl
    have posted := begun.step (.post ()) trivial trivial rfl
    have ended := posted.step (.cancelFinish 1 ()) (by decide) trivial rfl
    exact ⟨_, ended, rfl, rfl, rfl, rfl, rfl⟩
  have deleted := waits.step (.terminate 1) trivial trivial rfl
  have posted := deleted.step (.post ()) trivial trivial rfl
  exact ⟨_, posted, rfl, rfl, rfl, rfl, rfl⟩

end NuttxRtos.Semaphore
