import NuttxRtos.Sched.Model

/-! Every TCB is on exactly the list that its state names, the prioritized lists are in order, and
tasks are pending only while the running task holds the scheduler lock. -/

namespace NuttxRtos.Sched

open List

open Function (forall_update_iff update update_apply update_of_ne)

open PriorityList

section

variable {τ : Type} [DecidableEq τ]

/-- The relation between the task lists and the TCBs. -/
structure Lists (idle : τ) (s : State τ) : Prop where
  idle_priority : s.priority idle = 0
  positive : ∀ t, t ≠ idle → 0 < s.priority t
  ready_desc : Desc s.priority s.readytorun
  ready_nodup : s.readytorun.Nodup
  idle_last : ∃ l, s.readytorun = l ++ [idle]
  pending_desc : Desc s.priority s.pendingtasks
  pending_nodup : s.pendingtasks.Nodup
  waiting_desc : ∀ w, w.isPrioritized = true → Desc s.priority (s.waiting w)
  waiting_nodup : ∀ w, (s.waiting w).Nodup
  running : ∀ t, s.taskState t = .running ↔ s.readytorun.head? = some t
  ready : ∀ t, t ∈ s.readytorun ↔ s.taskState t = .running ∨ s.taskState t = .readytorun
  pending : ∀ t, t ∈ s.pendingtasks ↔ s.taskState t = .pending
  blocked : ∀ w t, t ∈ s.waiting w ↔ s.taskState t = .blocked w

def PendingLocked (s : State τ) : Prop :=
  s.pendingtasks ≠ [] → ∃ t, s.readytorun.head? = some t ∧ 0 < s.lockcount t

variable {idle t rtcb : τ} {s s' : State τ} {w : Wait} {p : ℕ} {rest : List τ}

theorem addRunnable_of_lt (head : s.readytorun = rtcb :: rest)
    (lower : s.priority rtcb < s.priority t) :
    addRunnable s rtcb t =
      ((({ s with readytorun := insert s.priority t s.readytorun }.setState t .running).setState
        rtcb .readytorun), true) := by
  simp [addRunnable, addPrioritized, head, lower]

theorem addRunnable_of_le (head : s.readytorun = rtcb :: rest)
    (higher : s.priority t ≤ s.priority rtcb) :
    addRunnable s rtcb t =
      ({ s with readytorun := insert s.priority t s.readytorun }.setState t .readytorun,
        false) := by
  simp [addRunnable, addPrioritized, head, not_lt.2 higher]

namespace Lists

variable (lists : Lists idle s)
include lists

section

omit [DecidableEq τ]

theorem idle_mem : idle ∈ s.readytorun := by
  obtain ⟨l, last⟩ := lists.idle_last
  simp [last]

theorem exists_head : ∃ rtcb rest, s.readytorun = rtcb :: rest :=
  exists_cons_of_ne_nil (ne_nil_of_mem lists.idle_mem)

theorem ne_idle_of_invalid (out : s.taskState t = .invalid) : t ≠ idle := by
  rintro rfl
  simpa [out] using (lists.ready t).1 lists.idle_mem

theorem notMem_ready (out : s.taskState t = .invalid) : t ∉ s.readytorun := by
  simp [lists.ready, out]

theorem states : (∀ t, s.taskState t = .running ↔ s.readytorun.head? = some t) ∧
    (∀ t, t ∈ s.readytorun ↔ s.taskState t = .running ∨ s.taskState t = .readytorun) ∧
    (∀ t, t ∈ s.pendingtasks ↔ s.taskState t = .pending) ∧
    ∀ w t, t ∈ s.waiting w ↔ s.taskState t = .blocked w :=
  ⟨lists.running, lists.ready, lists.pending, lists.blocked⟩

theorem exists_next (not_idle : t ≠ idle)
    (head : s.readytorun = t :: rest) : ∃ next rest', rest = next :: rest' := by
  have member : idle ∈ t :: rest := head ▸ lists.idle_mem
  exact exists_cons_of_ne_nil
    (ne_nil_of_mem (mem_of_ne_of_mem (Ne.symm not_idle) member))

end

theorem addRunnable (out : s.taskState t = .invalid)
    (head : s.readytorun = rtcb :: rest) : Lists idle (addRunnable s rtcb t).1 := by
  have fresh := lists.notMem_ready out
  have not_idle := lists.ne_idle_of_invalid out
  have nodup : (insert s.priority t s.readytorun).Nodup := insert_nodup lists.ready_nodup fresh
  have last : ∃ l, insert s.priority t s.readytorun = l ++ [idle] := by
    obtain ⟨l, last⟩ := lists.idle_last
    have lower : s.priority idle < s.priority t := by
      rw [lists.idle_priority]
      exact lists.positive t not_idle
    exact ⟨_, by rw [last, insert_concat lower]⟩
  have running_head : s.taskState rtcb = .running := (lists.running rtcb).2 (by rw [head]; rfl)
  have head_next : (insert s.priority t s.readytorun).head? =
      some (if s.priority rtcb < s.priority t then t else rtcb) := by
    rw [head, head?_insert_cons]
  obtain ⟨running, ready, pending, blocked⟩ := lists.states
  by_cases lower : s.priority rtcb < s.priority t
  case' pos => rw [addRunnable_of_lt head lower]
  case' neg => rw [addRunnable_of_le head (not_lt.1 lower)]
  all_goals refine { lists with
    ready_desc := insert_desc lists.ready_desc, ready_nodup := nodup, idle_last := last,
    running := ?_, ready := ?_, pending := ?_, blocked := ?_ } <;> simp [update_apply] <;> grind

theorem addPending (out : s.taskState t = .invalid) :
    Lists idle
      ({ s with pendingtasks := insert s.priority t s.pendingtasks }.setState t .pending) := by
  have fresh : t ∉ s.pendingtasks := by simp [lists.pending, out]
  obtain ⟨running, ready, pending, blocked⟩ := lists.states
  refine { lists with
    pending_desc := insert_desc lists.pending_desc,
    pending_nodup := insert_nodup lists.pending_nodup fresh,
    running := ?_, ready := ?_, pending := ?_, blocked := ?_ } <;> simp [update_apply] <;> grind

theorem removePending (is_pending : s.taskState t = .pending) :
    Lists idle ({ s with pendingtasks := s.pendingtasks.erase t }.setState t .invalid) := by
  obtain ⟨running, ready, pending, blocked⟩ := lists.states
  have erased : ∀ u, u ∈ s.pendingtasks.erase t ↔ u ≠ t ∧ u ∈ s.pendingtasks :=
    fun u => lists.pending_nodup.mem_erase_iff
  refine { lists with
    pending_desc := lists.pending_desc.erase t, pending_nodup := lists.pending_nodup.erase t,
    running := ?_, ready := ?_, pending := ?_, blocked := ?_ } <;> simp [update_apply] <;> grind

theorem addBlocked (out : s.taskState t = .invalid) : Lists idle (addBlocked s t w) := by
  have fresh : t ∉ s.waiting w := by simp [lists.blocked, out]
  obtain ⟨running, ready, pending, blocked⟩ := lists.states
  have member : ∀ u, u ∈ (if w.isPrioritized then (addPrioritized s t (s.waiting w)).1
      else s.waiting w ++ [t]) ↔ u = t ∨ u ∈ s.waiting w := by
    intro u
    cases w.isPrioritized with
    | true => simp [addPrioritized]
    | false => simp [or_comm]
  refine { lists with
    waiting_desc := (forall_update_iff s.waiting fun v l => v.isPrioritized = true →
      Desc s.priority l).2 ⟨fun prioritized => ?_, fun v _ => lists.waiting_desc v⟩
    waiting_nodup := (forall_update_iff s.waiting _).2 ⟨?_, fun v _ => lists.waiting_nodup v⟩
    running := ?_, ready := ?_, pending := ?_, blocked := ?_ }
  · simpa [prioritized, addPrioritized] using insert_desc (lists.waiting_desc w prioritized)
  · cases prioritized : w.isPrioritized with
    | true => simpa [addPrioritized] using insert_nodup (lists.waiting_nodup w) fresh
    | false =>
      simpa [nodup_append] using
        ⟨lists.waiting_nodup w, fun u member same => fresh (same ▸ member)⟩
  all_goals simp only [Sched.addBlocked, State.setState_taskState, State.setState_readytorun,
    State.setState_pendingtasks, State.setState_waiting, State.setWaiting_taskState,
    State.setWaiting_readytorun, State.setWaiting_pendingtasks, State.setWaiting_waiting,
    update_apply]
  all_goals grind

theorem removeBlocked (is_blocked : s.taskState t = .blocked w) :
    Lists idle ((s.setWaiting w ((s.waiting w).erase t)).setState t .invalid) := by
  obtain ⟨running, ready, pending, blocked⟩ := lists.states
  have erased : ∀ u, u ∈ (s.waiting w).erase t ↔ u ≠ t ∧ u ∈ s.waiting w :=
    fun u => (lists.waiting_nodup w).mem_erase_iff
  refine { lists with
    waiting_desc := (forall_update_iff s.waiting fun v l => v.isPrioritized = true →
      Desc s.priority l).2 ⟨fun prioritized => (lists.waiting_desc w prioritized).erase t,
        fun v _ => lists.waiting_desc v⟩
    waiting_nodup := (forall_update_iff s.waiting _).2
      ⟨(lists.waiting_nodup w).erase t, fun v _ => lists.waiting_nodup v⟩
    running := ?_, ready := ?_, pending := ?_, blocked := ?_ }
  all_goals simp [update_apply]
  all_goals grind

section

variable (not_idle : t ≠ idle) (positive : 0 < p) (not_pending : t ∉ s.pendingtasks)
  (not_waiting : ∀ w, w.isPrioritized = true → t ∉ s.waiting w)
include not_idle positive not_pending not_waiting

/-- The priority of a task may change if the task is not pending or blocked and the tasks that are
ready stay in order. -/
theorem setPrio_ready
    (ready_desc : Desc (update s.priority t p) s.readytorun) : Lists idle (s.setPrio t p) := by
  refine { lists with
    idle_priority := ?_, positive := ?_, ready_desc
    pending_desc := lists.pending_desc.update not_pending
    waiting_desc := fun w prioritized =>
      (lists.waiting_desc w prioritized).update (not_waiting w prioritized) }
  · simpa [update_of_ne (Ne.symm not_idle)] using lists.idle_priority
  intro u other
  by_cases same : u = t
  · simpa [same] using positive
  · simpa [update_of_ne same] using lists.positive u other

theorem setPrio (not_ready : t ∉ s.readytorun) : Lists idle (s.setPrio t p) :=
  lists.setPrio_ready not_idle positive not_pending not_waiting (lists.ready_desc.update not_ready)

end

theorem setPrio_invalid (out : s.taskState t = .invalid)
    (positive : 0 < p) : Lists idle (s.setPrio t p) :=
  lists.setPrio (lists.ne_idle_of_invalid out) positive (by simp [lists.pending, out])
    (by simp [lists.blocked, out]) (lists.notMem_ready out)

/-- The priority of the running task may change in place while it stays above the next task. -/
theorem setPrio_head {next : τ} (not_idle : t ≠ idle)
    (head : s.readytorun = t :: next :: rest) (above : s.priority next < p) :
    Lists idle (s.setPrio t p) := by
  have is_running : s.taskState t = .running := (lists.running t).2 (by rw [head]; rfl)
  refine lists.setPrio_ready not_idle ((Nat.zero_le _).trans_lt above)
    (by simp [lists.pending, is_running]) (by simp [lists.blocked, is_running]) ?_
  have desc := lists.ready_desc
  have nodup := lists.ready_nodup
  rw [head] at desc nodup ⊢
  exact desc.update_head (nodup_cons.1 nodup).1 above.le

theorem removeHead {next : τ} (not_idle : t ≠ idle) (head : s.readytorun = t :: next :: rest) :
    Lists idle (({ s with readytorun := next :: rest }.setState next .running).setState t
      .invalid) := by
  have desc := lists.ready_desc
  have nodup := lists.ready_nodup
  obtain ⟨running, ready, pending, blocked⟩ := lists.states
  rw [head] at desc nodup running ready
  obtain ⟨absent, nodup_rest⟩ := nodup_cons.1 nodup
  have last : ∃ l, next :: rest = l ++ [idle] := by
    obtain ⟨l, last⟩ := lists.idle_last
    cases l with
    | nil => simp [head, not_idle] at last
    | cons u l =>
      rw [head, cons_append, List.cons.injEq] at last
      exact ⟨l, last.2⟩
  refine { lists with
    ready_desc := (pairwise_cons.1 desc).2, ready_nodup := nodup_rest, idle_last := last,
    running := ?_, ready := ?_, pending := ?_, blocked := ?_ } <;> simp [update_apply] <;> grind

theorem removeLater (not_idle : t ≠ idle) (is_ready : s.taskState t = .readytorun) :
    Lists idle ({ s with readytorun := s.readytorun.erase t }.setState t .invalid) := by
  obtain ⟨running, ready, pending, blocked⟩ := lists.states
  obtain ⟨rtcb, rest, head⟩ := lists.exists_head
  have distinct : rtcb ≠ t := by
    rintro rfl
    simpa [is_ready, head] using lists.running rtcb
  have erased : ∀ u, u ∈ s.readytorun.erase t ↔ u ≠ t ∧ u ∈ s.readytorun :=
    fun u => lists.ready_nodup.mem_erase_iff
  have last : ∃ l, s.readytorun.erase t = l ++ [idle] := by
    obtain ⟨l, last⟩ := lists.idle_last
    have member : t ∈ l := by
      have := (lists.ready t).2 (.inr is_ready)
      simpa [last, not_idle] using this
    exact ⟨l.erase t, by rw [last, erase_append_left _ member]⟩
  refine { lists with
    ready_desc := lists.ready_desc.erase t, ready_nodup := lists.ready_nodup.erase t,
    idle_last := last, running := ?_, ready := ?_, pending := ?_, blocked := ?_ } <;>
      simp [update_apply] <;> grind

end Lists

end

end NuttxRtos.Sched
