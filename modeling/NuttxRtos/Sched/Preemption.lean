import NuttxRtos.Sched.Runs

/-! Which operations take the processor from a task that holds the scheduler lock. -/

namespace NuttxRtos.Sched

open Option

section

variable {τ : Type} [DecidableEq τ]

variable {idle t u : τ} {s s' : State τ} {p : ℕ}

/-- The entry points of the scheduler, without those by which the task itself blocks, exits or gives
up its last lock. -/
def Foreign (s : State τ) (t : τ) : Op τ → Prop
  | .removeReadytorun _ | .reprioritizeRtr _ _ | .mergePending | .exit => False
  | .block u _ => u ≠ t
  | .unlock => 1 < s.lockcount t
  | .addReadytorun _ | .setPriority _ _ | .addBlocked _ _ | .unblock _ | .lock |
    .terminate _ => True

/-- The running task is not given a priority at or below that of the next ready task, and no other
task is blocked while a pending task has a higher priority than the running one. -/
def Undisturbed (s : State τ) (t : τ) : Op τ → Prop
  | .setPriority u p =>
    u = t → priorityMin ≤ p → p ≤ priorityMax →
      ∀ next, s.readytorun.tail.head? = some next → s.priority next < p
  | .block _ _ => ∀ q ∈ s.pendingtasks, s.priority q ≤ s.priority t
  | _ => True

omit [DecidableEq τ] in
theorem Added.head_locked {added : Bool} (add : Added idle s u s' added)
    (head : s.readytorun.head? = some t) (locked : 0 < s.lockcount t) :
    added = false ∧ s'.readytorun.head? = some t := by
  cases added with
  | true => exact absurd (add.unlocked rfl t head) (locked.ne')
  | false => exact ⟨rfl, by rw [add.head]; exact head⟩

/-- A ready task that gets another priority does not get before a task that holds the lock. -/
theorem setPriority_ready_head (lists : Lists idle s) (not_idle : u ≠ idle) (positive : 0 < p)
    (head : s.readytorun.head? = some t) (locked : 0 < s.lockcount t)
    (ready : s.taskState u = .readytorun) (returns : readytorunSetpriority s u p = some s') :
    s'.readytorun.head? = some t := by
  obtain ⟨s₁, s₂, removed, added, removes, remove, adds, add⟩ :=
    readd_spec lists not_idle positive (.inr ready)
  have later : removed = false := by
    cases removed with
    | false => rfl
    | true =>
      have first := (lists.running u).2 (remove.removed_iff.1 rfl)
      simp [ready] at first
  subst later
  have head₁ : (s₁.setPrio u p).readytorun.head? = some t := remove.head.trans head
  have locked₁ : 0 < (s₁.setPrio u p).lockcount t := by
    change 0 < s₁.lockcount t
    rwa [remove.lockcount]
  obtain ⟨behind, head₂⟩ := add.head_locked head₁ locked₁
  subst behind
  obtain ⟨rtcb, rest, list⟩ := lists.exists_head
  have same : s' = s₂ := by
    simp only [readytorunSetpriority, list, upReprioritizeRtr_eq removes adds, removes, adds,
      bind_eq_bind, bind_some, Bool.xor_self, Bool.false_eq_true, if_false,
      ite_self, Option.some.injEq] at returns
    exact returns.symm
  rw [same]
  exact head₂

/-- The running task loses the processor to the next one when its new priority is not above that
task's, whether it holds the lock or not. -/
theorem setPriority_running_head {next : τ} {rest : List τ} (lists : Lists idle s)
    (not_idle : t ≠ idle) (positive : 0 < p) (ready : s.readytorun = t :: next :: rest)
    (returns : runningSetpriority s t p = some s') :
    s'.readytorun.head? = some t ↔ s.priority next < p := by
  have head : s.readytorun.head? = some t := by rw [ready]; rfl
  have running := (lists.running t).2 head
  simp only [runningSetpriority, ready] at returns
  by_cases below : p ≤ s.priority next
  · rw [if_pos below] at returns
    refine iff_of_false ?_ (not_lt.2 below)
    obtain ⟨s₁, s₂, removed, added, removes, remove, adds, add⟩ :=
      readd_spec lists not_idle positive (.inl running)
    have first : removed = true := remove.removed_iff.2 head
    subst first
    have distinct : next ≠ t := by
      rintro rfl
      have nodup := lists.ready_nodup
      simp [ready] at nodup
    have head₁ : (s₁.setPrio t p).readytorun.head? = some next := by
      change s₁.readytorun.head? = _
      rw [remove.head, ready]
      rfl
    have not_lower : ∀ rtcb, (s₁.setPrio t p).readytorun.head? = some rtcb →
        ¬(s₁.setPrio t p).priority rtcb < (s₁.setPrio t p).priority t := by
      intro rtcb head_r lower
      rw [head₁, Option.some.injEq] at head_r
      subst head_r
      simp only [State.setPrio_priority, Function.update_of_ne distinct, Function.update_self,
        remove.priority] at lower
      exact absurd lower (not_lt.2 below)
    have behind : added = false := by
      cases added with
      | false => rfl
      | true =>
        obtain ⟨rtcb, head_r, lower⟩ := (add.lower.1 rfl).2
        exact absurd lower (not_lower rtcb head_r)
    subst behind
    have head₂ : s₂.readytorun.head? = some next := by
      rw [add.head]
      exact head₁
    obtain ⟨s₃, merges, merged⟩ := mergeIfPending_spec add.lists
    rw [upReprioritizeRtr_eq removes adds] at returns
    simp only [Bool.xor_false, if_true, merges, Option.some.injEq] at returns
    subst returns
    -- the task is on `g_readytorun` again, so that the merge cannot put it first
    intro back
    rcases merged.head_cases add.lists head₂ with ⟨-, stays⟩ | ⟨q, pending, -, first⟩
    · cases stays.symm.trans back
      exact distinct rfl
    · cases first.symm.trans back
      cases add.pending with
      | inl same =>
        rw [same, show (s₁.setPrio t p).pendingtasks = s.pendingtasks from remove.pending,
          lists.pending, running] at pending
        cases pending
      | inr pended =>
        obtain ⟨rtcb, head_r, _, lower⟩ := pended
        exact not_lower rtcb head_r lower
  rw [if_neg below, Option.some.injEq] at returns
  subst returns
  exact iff_of_true head (not_le.1 below)

theorem setPriority_head_iff (lists : Lists idle s) (not_idle : u ≠ idle)
    (head : s.readytorun.head? = some t) (locked : 0 < s.lockcount t)
    (returns : setPriority s u p = some s') :
    s'.readytorun.head? = some t ↔ Undisturbed s t (.setPriority u p) := by
  by_cases refused : p < priorityMin ∨ priorityMax < p
  · rw [setPriority, if_pos refused, Option.some.injEq] at returns
    subst returns
    refine iff_of_true head fun _ low high => ?_
    exact absurd refused (by omega)
  have low : priorityMin ≤ p := not_lt.1 fun low => refused (.inl low)
  have high : p ≤ priorityMax := not_lt.1 fun high => refused (.inr high)
  have positive : 0 < p := zero_lt_one.trans_le low
  rw [setPriority, if_neg refused] at returns
  by_cases own : u = t
  · subst own
    obtain ⟨rest, ready⟩ := List.head?_eq_some_iff.1 head
    obtain ⟨next, rest', tail⟩ := lists.exists_next not_idle ready
    subst tail
    rw [(lists.running u).2 head] at returns
    rw [setPriority_running_head lists not_idle positive ready returns]
    simp [Undisturbed, ready, low, high]
  refine iff_of_true ?_ fun same => absurd same own
  cases state : s.taskState u with
  | running =>
    have first := (lists.running u).1 state
    rw [head, Option.some.injEq] at first
    exact absurd first.symm own
  | readytorun =>
    rw [state] at returns
    exact setPriority_ready_head lists not_idle positive head locked state returns
  | invalid | pending | blocked w =>
    simp only [state, Option.some.injEq] at returns
    rw [← returns, blockedSetpriority_frame.1]
    exact head

/-- While the running task holds the scheduler lock, an operation other than its own blocking, exit
or last unlock leaves it running exactly if it is `Undisturbed`. -/
theorem head_kept_iff (run : Run idle Released s) (head : s.readytorun.head? = some t)
    (locked : 0 < s.lockcount t) (op : Op τ) (valid : Valid idle s op) (foreign : Foreign s t op)
    (returns : step s op = some s') : s'.readytorun.head? = some t ↔ Undisturbed s t op := by
  have lists := run.lists.1
  cases op with
  | removeReadytorun u | reprioritizeRtr u p | mergePending | exit => exact absurd foreign id
  | setPriority u p => exact setPriority_head_iff lists valid head locked returns
  | addReadytorun u =>
    obtain ⟨s₁, added, adds, add⟩ := addReadytorun_spec lists valid
    rw [step, adds, map_some, Option.some.injEq] at returns
    exact iff_of_true (returns ▸ (add.head_locked head locked).2) trivial
  | unblock u =>
    obtain ⟨w, blocked⟩ := valid
    obtain ⟨s₁, added, adds, add⟩ := addReadytorun_spec (lists.removeBlocked blocked)
      (Function.update_self ..)
    simp only [step, upUnblockTask, removeBlocked, blocked, adds, bind_eq_bind,
      bind_some, Option.some.injEq] at returns
    exact iff_of_true (returns ▸ (add.head_locked head locked).2) trivial
  | addBlocked u w =>
    rw [step, Option.some.injEq] at returns
    exact iff_of_true (returns ▸ head) trivial
  | lock =>
    obtain ⟨rtcb, rest, ready⟩ := lists.exists_head
    simp only [step, schedLock, ready, Option.some.injEq] at returns
    exact iff_of_true (returns ▸ head) trivial
  | unlock =>
    obtain ⟨rest, ready⟩ := List.head?_eq_some_iff.1 head
    have more : ¬s.lockcount t - 1 = 0 := by
      have : 1 < s.lockcount t := foreign
      omega
    simp only [step, schedUnlock, ready, if_neg more, Option.some.injEq] at returns
    exact iff_of_true (returns ▸ head) trivial
  | terminate u =>
    refine iff_of_true ?_ trivial
    obtain ⟨not_idle, not_running, _⟩ := valid
    have other : t ≠ u := by
      rintro rfl
      exact not_running ((lists.running t).2 head)
    obtain ⟨s₁, returned, lists₁, _⟩ :=
      terminate_lists lists run.lists.2 not_idle not_running ‹_›
    have same : s₁ = s' := by
      rw [step, returned, Option.some.injEq] at returns
      exact returns
    rw [← same, ← lists₁.running, terminate_taskState returned, Function.update_of_ne other]
    exact (lists.running t).2 head
  | block u w =>
    obtain ⟨not_idle, listed⟩ := valid
    obtain ⟨s₁, removed, removes, remove⟩ := removeReadytorun_spec lists not_idle listed
    have later : removed = false := by
      cases removed with
      | false => rfl
      | true =>
        have first := remove.removed_iff.1 rfl
        rw [head, Option.some.injEq] at first
        exact absurd first.symm foreign
    subst later
    have lists₁ := remove.lists.addBlocked (w := w) remove.out
    obtain ⟨s₂, merges, merged⟩ := mergeIfPending_spec lists₁
    simp only [step, upBlockTask, removes, merges, bind_eq_bind, bind_some,
      Option.some.injEq] at returns
    have head₁ : (addBlocked s₁ u w).readytorun.head? = some t := remove.head.trans head
    rw [← returns, merged.head_iff lists₁ head₁]
    simp [Undisturbed, addBlocked, remove.pending, remove.priority]

end

/-- Task 2 holds the lock and stays above task 1 with its new priority. -/
theorem head_kept_iff_above :
    ∃ s s' : State (Fin 3), Run 0 Released s ∧ s.readytorun = [2, 1, 0] ∧ 0 < s.lockcount 2 ∧
      step s (.setPriority 2 15) = some s' ∧ s'.readytorun.head? = some 2 := by
  have first : Run (0 : Fin 3) Released threeTasks := .init _ threeTasks_positive
  have second := first.step (.addReadytorun 1) rfl trivial rfl
  have third := second.step (.addReadytorun 2) rfl trivial rfl
  have fourth := third.step .lock trivial trivial rfl
  refine ⟨_, _, fourth, rfl, by decide, rfl, ?_⟩
  refine (head_kept_iff fourth rfl (by decide) (.setPriority 2 15)
    (show (2 : Fin 3) ≠ 0 by decide) trivial rfl).2 ?_
  rintro - - - next is_next
  cases is_next
  decide

/-- Task 2 holds the lock, its priority goes below that of task 1, and task 1 runs. -/
theorem setPriority_preempts_lock :
    ∃ s s' : State (Fin 3), Run 0 Released s ∧ s.readytorun = [2, 1, 0] ∧ s.lockcount 2 = 1 ∧
      step s (.setPriority 2 5) = some s' ∧ s'.readytorun = [1, 2, 0] ∧ s'.lockcount 2 = 1 := by
  have first : Run (0 : Fin 3) Released threeTasks := .init _ threeTasks_positive
  have second := first.step (.addReadytorun 1) rfl trivial rfl
  have third := second.step (.addReadytorun 2) rfl trivial rfl
  have fourth := third.step .lock trivial trivial rfl
  exact ⟨_, _, fourth, rfl, rfl, rfl, rfl, rfl⟩

end NuttxRtos.Sched
