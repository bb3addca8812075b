import NuttxRtos.Sched.Operations

/-! The invariant of the task lists over whole runs of the scheduler. -/

namespace NuttxRtos.Sched

open List

section

variable {τ : Type} [DecidableEq τ]

variable {idle t : τ} {s s' : State τ} {w : Wait} {p : ℕ}

/-- The running task is taken off `g_readytorun` with no task pending, or by a caller that merges
the pending tasks afterwards. -/
def Released (s : State τ) : Op τ → Prop
  | .removeReadytorun t => s.readytorun.head? = some t → s.pendingtasks = []
  | _ => True

theorem initial_lists {priority : τ → ℕ} (positive : ∀ t, t ≠ idle → 0 < priority t) :
    Lists idle (initial idle priority) where
  idle_priority := by simp [initial]
  positive := by
    intro t other
    simpa [initial, other] using positive t other
  ready_desc := pairwise_singleton _ _
  ready_nodup := nodup_singleton _
  idle_last := ⟨[], rfl⟩
  pending_desc := List.Pairwise.nil
  pending_nodup := nodup_nil
  waiting_desc := fun _ _ => List.Pairwise.nil
  waiting_nodup := fun _ => nodup_nil
  running := by
    intro t
    by_cases same : t = idle
    · simp [initial, same]
    · simp [initial, same, Ne.symm same]
  ready := by
    intro t
    by_cases same : t = idle
    all_goals simp [initial, same]
  pending := by
    intro t
    by_cases same : t = idle
    all_goals simp [initial, same]
  blocked := by
    intro w t
    by_cases same : t = idle
    all_goals simp [initial, same]

theorem Lists.setLockcount {n : ℕ} (lists : Lists idle s) : Lists idle (s.setLockcount t n) :=
  { lists with }

section

variable (lists : Lists idle s) (locked : PendingLocked s)
include lists locked

theorem terminate_lists (not_idle : t ≠ idle)
    (not_running : s.taskState t ≠ .running) (valid : s.taskState t ≠ .invalid) :
    ∃ s', terminate s t = some s' ∧ Lists idle s' ∧ PendingLocked s' := by
  cases state : s.taskState t with
  | invalid => exact absurd state valid
  | running => exact absurd state not_running
  | pending =>
    refine ⟨_, by rw [terminate, state], lists.removePending state, fun some_pending => ?_⟩
    exact locked fun empty => some_pending (by simp [empty])
  | readytorun =>
    have lists' := lists.removeLater not_idle state
    refine ⟨_, by rw [terminate, state], lists', fun some_pending => ?_⟩
    obtain ⟨rtcb, head, positive⟩ := locked some_pending
    refine ⟨rtcb, (lists'.running rtcb).1 ?_, positive⟩
    have is_running := (lists.running rtcb).2 head
    have distinct : rtcb ≠ t := by
      rintro rfl
      simp [state] at is_running
    simpa [distinct] using is_running
  | blocked w =>
    exact ⟨_, by rw [terminate, state], lists.removeBlocked state, locked⟩

theorem setPriority_lists (not_idle : t ≠ idle) :
    ∃ s', setPriority s t p = some s' ∧ Lists idle s' ∧ PendingLocked s' := by
  by_cases refused : p < priorityMin ∨ priorityMax < p
  · exact ⟨s, if_pos refused, lists, locked⟩
  have positive : 0 < p := by
    have low := not_lt.1 fun low => refused (.inl low)
    exact zero_lt_one.trans_le low
  rw [setPriority, if_neg refused]
  cases state : s.taskState t with
  | running =>
    obtain ⟨rest, ready⟩ := head?_eq_some_iff.1 ((lists.running t).1 state)
    obtain ⟨next, rest', tail⟩ := lists.exists_next not_idle ready
    subst tail
    simp only [runningSetpriority, ready]
    by_cases below : p ≤ s.priority next
    · rw [if_pos below]
      exact upReprioritizeRtr_lists lists locked not_idle positive (.inl state)
    · rw [if_neg below]
      exact ⟨_, rfl, lists.setPrio_head not_idle ready (not_le.1 below), locked⟩
  | readytorun =>
    obtain ⟨rtcb, rest, ready⟩ := lists.exists_head
    simp only [readytorunSetpriority, ready]
    by_cases above : s.priority rtcb < p
    · rw [if_pos above]
      exact upReprioritizeRtr_lists lists locked not_idle positive (.inr state)
    rw [if_neg above]
    obtain ⟨s₁, s₂, removed, added, removes, remove, adds, add⟩ :=
      readd_spec lists not_idle positive (.inr state)
    have later : s.readytorun.head? ≠ some t := by
      rw [Ne, ← lists.running, state]
      decide
    have locked₁ : PendingLocked (s₁.setPrio t p) :=
      remove.pendingLocked locked fun first => absurd first later
    exact ⟨s₂, by simp [removes, adds], add.lists, add.pendingLocked locked₁⟩
  | invalid | pending | blocked w =>
    have lists' := blockedSetpriority_lists lists not_idle positive (by simp [state])
    obtain ⟨ready, states, counts⟩ := blockedSetpriority_frame (s := s) (t := t) (p := p)
    refine ⟨_, rfl, lists', ?_⟩
    intro some_pending
    obtain ⟨q, pending⟩ := exists_mem_of_ne_nil _ some_pending
    rw [lists'.pending, states, ← lists.pending] at pending
    rw [ready, counts]
    exact locked (ne_nil_of_mem pending)

theorem step_lists (op : Op τ) (valid : Valid idle s op) (released : Released s op) :
    ∃ s', step s op = some s' ∧ Lists idle s' ∧ PendingLocked s' := by
  cases op with
  | addReadytorun t =>
    obtain ⟨s', added, adds, add⟩ := addReadytorun_spec lists valid
    exact ⟨s', by rw [step, adds]; rfl, add.lists, add.pendingLocked locked⟩
  | removeReadytorun t =>
    obtain ⟨s', removed, removes, remove⟩ := removeReadytorun_spec lists valid.1 valid.2
    exact ⟨s', by rw [step, removes]; rfl, remove.lists, remove.pendingLocked locked released⟩
  | setPriority t p => exact setPriority_lists lists locked valid
  | reprioritizeRtr t p =>
    exact upReprioritizeRtr_lists lists locked valid.1 valid.2.2.1 valid.2.1
  | block t w =>
    obtain ⟨s₁, removed, removes, remove⟩ := removeReadytorun_spec lists valid.1 valid.2
    obtain ⟨s₂, merges, merged⟩ :=
      mergeIfPending_spec (remove.lists.addBlocked (w := w) remove.out)
    exact ⟨s₂, by simp [step, upBlockTask, removes, merges], merged.lists, merged.pendingLocked⟩
  | addBlocked t w => exact ⟨_, rfl, lists.addBlocked valid, locked⟩
  | unblock t =>
    obtain ⟨w, blocked⟩ := valid
    obtain ⟨s', added, adds, add⟩ := addReadytorun_spec (lists.removeBlocked blocked)
      (Function.update_self ..)
    exact ⟨s', by simp [step, upUnblockTask, removeBlocked, blocked, adds], add.lists,
      add.pendingLocked locked⟩
  | lock =>
    obtain ⟨rtcb, rest, ready⟩ := lists.exists_head
    refine ⟨s.setLockcount rtcb (s.lockcount rtcb + 1), by simp [step, schedLock, ready],
      lists.setLockcount, ?_⟩
    intro _
    exact ⟨rtcb, by simp [ready], by simp⟩
  | unlock =>
    obtain ⟨rtcb, rest, ready⟩ := lists.exists_head
    by_cases last : s.lockcount rtcb - 1 = 0
    · obtain ⟨s', merges, merged⟩ :=
        mergeIfPending_spec (lists.setLockcount (t := rtcb) (n := s.lockcount rtcb - 1))
      exact ⟨s', by simp only [step, schedUnlock, ready, if_pos last, merges], merged.lists,
        merged.pendingLocked⟩
    refine ⟨s.setLockcount rtcb (s.lockcount rtcb - 1),
      by simp only [step, schedUnlock, ready, if_neg last], lists.setLockcount, ?_⟩
    intro _
    exact ⟨rtcb, by simp [ready], by simpa using Nat.pos_of_ne_zero last⟩
  | mergePending =>
    obtain ⟨s', ret, merges, merged⟩ := mergePending_spec lists
    exact ⟨s', by rw [step, merges]; rfl, merged.lists, merged.pendingLocked⟩
  | terminate t => exact terminate_lists lists locked valid.1 valid.2.1 valid.2.2
  | exit =>
    obtain ⟨rtcb, rest, ready⟩ := lists.exists_head
    have head : s.readytorun.head? = some rtcb := by rw [ready]; rfl
    have not_idle : rtcb ≠ idle := by
      rintro rfl
      exact valid ((lists.running rtcb).2 head)
    obtain ⟨s₁, removed, removes, remove⟩ :=
      removeReadytorun_spec lists not_idle (.inl ((lists.running rtcb).2 head))
    have inactive := remove.lists.addBlocked (w := .inactive) remove.out
    have state : (addBlocked s₁ rtcb .inactive).taskState rtcb = .blocked .inactive :=
      Function.update_self ..
    obtain ⟨s₂, merges, merged⟩ := mergeIfPending_spec (inactive.removeBlocked state)
    exact ⟨s₂, by simp [step, taskExit, ready, removes, terminate, state, merges], merged.lists,
      merged.pendingLocked⟩

end

theorem Run.lists (run : Run idle Released s) : Lists idle s ∧ PendingLocked s := by
  induction run with
  | init priority positive =>
    exact ⟨initial_lists positive, fun some_pending => absurd rfl some_pending⟩
  | step _ op valid released returns ih =>
    obtain ⟨s', returned, lists, locked⟩ := step_lists ih.1 ih.2 op valid released
    rw [returns, Option.some.injEq] at returned
    exact returned ▸ ⟨lists, locked⟩

/-- In every run in which the running task is removed with no task pending, or by a caller that
merges the pending tasks, and the idle task is left alone: the lists are in order, every TCB is on
the list that its state names, tasks are pending only behind a locked task, and every operation
returns. -/
theorem run_taskLists (run : Run idle Released s) :
    Lists idle s ∧ PendingLocked s ∧
      ∀ op, Valid idle s op → Released s op → ∃ s', step s op = some s' := by
  obtain ⟨lists, locked⟩ := run.lists
  refine ⟨lists, locked, fun op valid released => ?_⟩
  obtain ⟨s', returns, _⟩ := step_lists lists locked op valid released
  exact ⟨s', returns⟩

end

/-- The idle task is task 0, and the others have the priorities 10 and 20. -/
def threeTasks : State (Fin 3) := initial 0 fun t => 10 * t

theorem threeTasks_positive (t : Fin 3) (other : t ≠ 0) : 0 < 10 * t.val := by
  omega

/-- Task 2 is pending while task 1 holds the lock. -/
theorem run_taskLists_pending :
    ∃ s : State (Fin 3), Run (0 : Fin 3) Released s ∧ s.readytorun = [1, 0] ∧ s.pendingtasks = [2] ∧
      Lists 0 s ∧ PendingLocked s := by
  have first : Run (0 : Fin 3) Released threeTasks := .init _ threeTasks_positive
  have second := first.step (.addReadytorun 1) rfl trivial rfl
  have third := second.step .lock trivial trivial rfl
  have fourth := third.step (.addReadytorun 2) rfl trivial rfl
  exact ⟨_, fourth, rfl, rfl, (run_taskLists fourth).1, (run_taskLists fourth).2.1⟩

/-- `nxsched_remove_readytorun` alone leaves task 2 pending behind the idle task, which holds no
lock; and a priority takes the idle task away from the end of the list. -/
theorem remove_leaves_pending :
    (∃ s : State (Fin 3), Run (0 : Fin 3) (fun _ _ => True) s ∧ s.readytorun = [0] ∧
      s.pendingtasks = [2] ∧
      s.lockcount 0 = 0) ∧
    ∃ s s' : State (Fin 3), Run (0 : Fin 3) (fun _ _ => True) s ∧ s.readytorun = [2, 1, 0] ∧
      setPriority s 0 15 = some s' ∧ s'.readytorun = [2, 0, 1] := by
  have first : Run (0 : Fin 3) (fun _ _ => True) threeTasks := .init _ threeTasks_positive
  have second := first.step (.addReadytorun 1) rfl trivial rfl
  have locked := second.step .lock trivial trivial rfl
  have pending := locked.step (.addReadytorun 2) rfl trivial rfl
  have removed := pending.step (.removeReadytorun 1) ⟨by decide, .inl rfl⟩ trivial rfl
  have ready := second.step (.addReadytorun 2) rfl trivial rfl
  exact ⟨⟨_, removed, rfl, rfl, rfl⟩, _, _, ready, rfl, rfl, rfl⟩

end NuttxRtos.Sched
