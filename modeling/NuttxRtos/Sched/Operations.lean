import Mathlib.Data.List.TakeWhile
import NuttxRtos.Sched.Lists

/-! What each operation does to the lists, and to the head of `g_readytorun`. -/

namespace NuttxRtos.Sched

open PriorityList List Option
open Function (update update_comm update_idem update_self)

section

variable {τ : Type} [DecidableEq τ]

variable {idle t u rtcb : τ} {s s' : State τ} {w : Wait} {p : ℕ} {rest ps : List τ}

/-! ## Merging the pending tasks -/

section Merge

variable {c : Cursor τ}

omit [DecidableEq τ] in
theorem mergeLoop_eq {priority : τ → ℕ} (before : List τ) {clone rest : List τ}
    (desc : Desc priority clone) : mergeLoop priority before clone rest =
      before ++ clone.foldl (fun l t => insert priority t l) rest := by
  fun_induction mergeLoop priority before clone rest with
  | case1 => rfl
  | case2 => rw [foldl_insert_nil desc]
  | case3 before tcb1 clone tcb2 rest lower ih =>
    obtain ⟨higher, desc⟩ := pairwise_cons.1 desc
    rw [ih desc, foldl_cons, insert_cons_of_lt lower, foldl_insert_cons higher, append_assoc]
    rfl
  | case4 before tcb1 clone tcb2 rest lower ih =>
    rw [ih desc, foldl_insert_cons fun t member => (desc.head_le member).trans (not_lt.1 lower),
      append_assoc]
    rfl

theorem addRunnable_setState (s : State τ) (rtcb t : τ) (state : TState) :
    addRunnable (s.setState t state) rtcb t = addRunnable s rtcb t := by
  simp only [addRunnable, addPrioritized, State.setState, update_idem]
  rfl

theorem mergeStep_eq (ps : List τ) {tail : List τ} (head : c.before ++ c.rest = rtcb :: tail)
    (passed : ∀ b ∈ c.before, s.priority t ≤ s.priority b) (last : idle ∈ c.before ++ c.rest)
    (above : s.priority idle < s.priority t) :
    ∃ c', mergeStep s.priority c t = some c' ∧
      c'.before ++ c'.rest = insert s.priority t (c.before ++ c.rest) ∧
      addRunnable (c.put s ps) rtcb t = (c'.put s ps, decide (s.priority rtcb < s.priority t)) ∧
      c'.ret = (c.ret || decide (s.priority rtcb < s.priority t)) ∧
      ∀ b ∈ c'.before, s.priority t ≤ s.priority b := by
  unfold mergeStep
  generalize search : (fun r => decide (s.priority t ≤ s.priority r)) = higher
  have ready : c.before ++ c.rest = c.before ++ c.rest.takeWhile higher ++
    c.rest.dropWhile higher := by
    rw [append_assoc, takeWhile_append_dropWhile]
  have all_passed : ∀ b ∈ c.before ++ c.rest.takeWhile higher, s.priority t ≤ s.priority b := by
    intro b member
    cases mem_append.1 member with
    | inl early => exact passed b early
    | inr late => simpa [← search] using mem_takeWhile_imp late
  have stop := head?_dropWhile_not higher c.rest
  generalize c.before ++ c.rest.takeWhile higher = before at ready all_passed ⊢
  generalize c.rest.dropWhile higher = dropped at ready stop ⊢
  obtain _ | ⟨r, rest⟩ := dropped
  · -- the idle task is of lower priority, so that the search stops before the end
    rw [ready, append_nil] at last
    exact absurd (all_passed idle last) (not_le.2 above)
  have lower : s.priority r < s.priority t := by simpa [← search] using stop
  have inserted : insert s.priority t (c.before ++ c.rest) = before ++ t :: r :: rest := by
    rw [ready, insert_append all_passed, insert_cons_of_lt lower]
  rw [ready] at head
  obtain _ | ⟨b, before⟩ := before
  · obtain ⟨rfl, rfl⟩ := List.cons.inj head
    have distinct : t ≠ r := fun same => lt_irrefl _ (same ▸ lower)
    refine ⟨_, if_pos rfl, inserted.symm, ?_, by simp [lower], by simp⟩
    rw [addRunnable_of_lt (s := c.put s ps) ready lower]
    simp only [Cursor.put, inserted, State.setState, lower, decide_true, update_comm distinct]
  · obtain ⟨rfl, rfl⟩ := List.cons.inj head
    have passes : s.priority t ≤ s.priority b := all_passed b mem_cons_self
    refine ⟨_, if_neg (cons_ne_nil _ _), inserted.symm, ?_, by simp [passes], all_passed⟩
    rw [addRunnable_of_le (s := c.put s ps) ready passes]
    simp only [Cursor.put, inserted, State.setState, not_lt.2 passes, decide_false]

/-- A task is taken off `g_pendingtasks` and handed to `nxsched_add_readytorun`; the result tells
whether the head has changed. -/
def readyStep (r : State τ × Bool) (t : τ) : Option (State τ × Bool) := do
  let added ← addReadytorun { r.1 with pendingtasks := r.1.pendingtasks.erase t } t
  some (added.1, r.2 || added.2)

def readyPending (s : State τ) : Option (State τ × Bool) :=
  s.pendingtasks.foldlM readyStep (s, false)

theorem foldlM_mergeStep (desc : Desc s.priority ps)
    (above : ∀ q ∈ ps, s.priority idle < s.priority q) (last : idle ∈ c.before ++ c.rest)
    (passed : ∀ q ∈ ps, ∀ b ∈ c.before, s.priority q ≤ s.priority b) :
    ∃ c', ps.foldlM (mergeStep s.priority) c = some c' ∧
      c'.before ++ c'.rest = ps.foldl (fun l q => insert s.priority q l) (c.before ++ c.rest) ∧
      (Lists idle (c.put s ps) → Lists idle (c'.put s [])) ∧
      ((∀ rtcb ∈ (c.before ++ c.rest).head?, ∀ q ∈ ps, s.priority rtcb < s.priority q →
          s.lockcount rtcb = 0) →
        ps.foldlM readyStep (c.put s ps, c.ret) = some (c'.put s [], c'.ret)) := by
  -- the tasks come in order, so that the search may go on from where the last one went
  induction ps generalizing c with
  | nil => exact ⟨c, rfl, rfl, id, fun _ => rfl⟩
  | cons t ps ih =>
    obtain ⟨lower, desc⟩ := pairwise_cons.1 desc
    obtain ⟨rtcb, tail, head⟩ := exists_cons_of_ne_nil (ne_nil_of_mem last)
    obtain ⟨c₁, found, list₁, adds, ret, passed₁⟩ := mergeStep_eq ps head
      (passed t mem_cons_self) last (above t mem_cons_self)
    obtain ⟨c₂, rest_found, list₂, lists₂, readies⟩ := ih desc
      (fun q member => above q (mem_cons_of_mem _ member))
      (by rw [list₁]; exact mem_insert.2 (.inr last))
      fun q in_q b in_b => (lower q in_q).trans (passed₁ b in_b)
    refine ⟨c₂, ?_, ?_, fun lists => lists₂ ?_, fun unlocked => ?_⟩
    · rw [foldlM_cons, found]
      exact rest_found
    · rw [list₂, list₁, foldl_cons]
    · have is_pending : c.taskState t = .pending := (lists.pending t).1 mem_cons_self
      have out := (lists.removePending is_pending).addRunnable (update_self ..) head
      rw [addRunnable_setState] at out
      simp only [Cursor.put, erase_cons_head] at out adds ⊢
      rw [adds] at out
      exact out
    · have first : readyStep (c.put s (t :: ps), c.ret) t = some (c₁.put s ps, c₁.ret) := by
        have free : ¬(0 < s.lockcount rtcb ∧ s.priority rtcb < s.priority t) := by
          rintro ⟨locked, below⟩
          exact locked.ne' (unlocked rtcb (by rw [head]; rfl) t mem_cons_self below)
        have added : addReadytorun (c.put s ps) t = some (addRunnable (c.put s ps) rtcb t) := by
          rw [addReadytorun, show (c.put s ps).readytorun = rtcb :: tail from head]
          exact if_neg free
        simp only [readyStep, Cursor.put, erase_cons_head] at added adds ⊢
        rw [added, adds, ret]
        rfl
      rw [foldlM_cons, first]
      refine readies fun r member q in_q below => ?_
      rw [list₁, head, head?_insert_cons, mem_some_iff] at member
      split at member
      · subst member
        exact absurd (lower q in_q) (not_le.2 below)
      · subst member
        exact unlocked rtcb (by rw [head]; rfl) q (mem_cons_of_mem _ in_q) below

end Merge

/-- The pending tasks as `nxsched_merge_pending` leaves them: each inserted in `g_readytorun`. -/
structure Merged (idle : τ) (s s' : State τ) : Prop where
  lists : Lists idle s'
  pending : s'.pendingtasks = []
  ready : s'.readytorun = s.pendingtasks.foldl (fun l q => insert s.priority q l) s.readytorun
  lockcount : s'.lockcount = s.lockcount

theorem mergePending_spec (lists : Lists idle s) :
    ∃ s' ret, mergePending s = some (s', ret) ∧ Merged idle s s' := by
  have above : ∀ q ∈ s.pendingtasks, s.priority idle < s.priority q := by
    intro q member
    rw [lists.idle_priority]
    refine lists.positive q ?_
    rintro rfl
    simpa [(lists.pending q).1 member] using (lists.ready q).1 lists.idle_mem
  obtain ⟨c, found, list, lists', -⟩ :=
    foldlM_mergeStep (c := ⟨[], s.readytorun, s.taskState, false⟩)
    lists.pending_desc above lists.idle_mem (by simp)
  exact ⟨_, c.ret, by rw [mergePending, found]; rfl, lists' lists, rfl, list, rfl⟩

/-- Merging the pending tasks is the same as readying them one by one. In both lists that a merge
makes, tasks of one priority come in their old order. -/
theorem mergePending_readies {l : List τ} (sorted : Desc s.priority s.readytorun)
    (last : s.readytorun = l ++ [idle]) (desc : Desc s.priority s.pendingtasks)
    (above : ∀ q ∈ s.pendingtasks, s.priority idle < s.priority q)
    (unlocked : ∀ rtcb ∈ s.readytorun.head?, s.lockcount rtcb = 0) :
    (∃ s' ret, mergePending s = some (s', ret) ∧ readyPending s = some (s', ret) ∧
      Merge s.priority s.readytorun s.pendingtasks s'.readytorun) ∧
    ∀ list1 list2 state, Desc s.priority list1 → Desc s.priority list2 →
      (mergePrioritized s list1 list2 state).1 = [] ∧
        Merge s.priority list2 list1 (mergePrioritized s list1 list2 state).2.1 := by
  refine ⟨?_, fun list1 list2 state desc1 desc2 => ⟨rfl, ?_⟩⟩
  · obtain ⟨c, found, list, -, readies⟩ :=
      foldlM_mergeStep (c := ⟨[], s.readytorun, s.taskState, false⟩) desc above
        (show idle ∈ s.readytorun by simp [last]) (by simp)
    refine ⟨c.put s [], c.ret, by rw [mergePending, found]; rfl,
      readies fun rtcb member _ _ _ => unlocked rtcb member, ?_⟩
    change Merge _ _ _ (c.before ++ c.rest)
    rw [list]
    exact foldl_insert_merge sorted
  · rw [mergePrioritized, mergeLoop_eq [] desc1]
    exact foldl_insert_merge desc2

/-- Two tasks wait for the running one. -/
def twoPending : State ℕ := { initial 0 id with readytorun := [2, 0], pendingtasks := [3, 1] }

theorem mergePending_readies_two : mergePending twoPending = readyPending twoPending := by
  have sorted : Desc twoPending.priority [2, 0] := pairwise_pair.2 (by decide)
  have desc : Desc twoPending.priority [3, 1] := pairwise_pair.2 (by decide)
  have last : twoPending.readytorun = [2] ++ [0] := rfl
  obtain ⟨⟨s', ret, merges, readies, -⟩, -⟩ :=
    mergePending_readies sorted last desc (by decide) (by decide)
  rw [merges, readies]

theorem mergeIfPending_spec (lists : Lists idle s) :
    ∃ s', mergeIfPending s = some s' ∧ Merged idle s s' := by
  by_cases empty : s.pendingtasks = []
  · exact ⟨s, if_pos empty, lists, empty, by rw [empty]; rfl, rfl⟩
  · obtain ⟨s', ret, merges, merged⟩ := mergePending_spec lists
    exact ⟨s', by rw [mergeIfPending, if_neg empty, merges]; rfl, merged⟩

section

omit [DecidableEq τ]

variable (merged : Merged idle s s')
include merged

theorem Merged.pendingLocked : PendingLocked s' :=
  fun pending => absurd merged.pending pending

variable (lists : Lists idle s) (head : s.readytorun.head? = some t)
include lists head

/-- A pending task is at the head after the merge exactly when one is above the running task. -/
theorem Merged.head_cases :
    (∀ q ∈ s.pendingtasks, s.priority q ≤ s.priority t) ∧ s'.readytorun.head? = some t ∨
      ∃ q ∈ s.pendingtasks, s.priority t < s.priority q ∧ s'.readytorun.head? = some q := by
  obtain ⟨rest, ready⟩ := head?_eq_some_iff.1 head
  rw [merged.ready, ready]
  by_cases above : ∀ q ∈ s.pendingtasks, s.priority q ≤ s.priority t
  · exact .inl ⟨above, by rw [foldl_insert_cons above, head?_cons]⟩
  cases tasks : s.pendingtasks with
  | nil => simp [tasks] at above
  | cons q tasks' =>
    have desc : Desc s.priority (q :: tasks') := tasks ▸ lists.pending_desc
    have lower : s.priority t < s.priority q := by
      by_contra higher
      refine above fun x member => ?_
      rw [tasks] at member
      exact (desc.head_le member).trans (not_lt.1 higher)
    exact .inr ⟨q, mem_cons_self, lower, head?_foldl_insert_of_lt desc lower⟩

theorem Merged.head_iff :
    s'.readytorun.head? = some t ↔ ∀ q ∈ s.pendingtasks, s.priority q ≤ s.priority t := by
  rcases merged.head_cases lists head with ⟨above, stays⟩ | ⟨q, member, lower, first⟩
  · exact iff_of_true stays above
  · refine iff_of_false (fun stays => ?_) fun above => (above q member).not_gt lower
    cases first.symm.trans stays
    exact lt_irrefl _ lower

end

/-! ## Adding and removing -/

/-- What `nxsched_add_readytorun` does with a task that is on no list. -/
structure Added (idle : τ) (s : State τ) (t : τ) (s' : State τ) (added : Bool) : Prop where
  lists : Lists idle s'
  lockcount : s'.lockcount = s.lockcount
  priority : s'.priority = s.priority
  head : s'.readytorun.head? = if added then some t else s.readytorun.head?
  unlocked : added = true → ∀ rtcb, s.readytorun.head? = some rtcb → s.lockcount rtcb = 0
  lower : added = true ↔ s'.pendingtasks = s.pendingtasks ∧
    ∃ rtcb, s.readytorun.head? = some rtcb ∧ s.priority rtcb < s.priority t
  pending : s'.pendingtasks = s.pendingtasks ∨
    ∃ rtcb, s.readytorun.head? = some rtcb ∧ 0 < s.lockcount rtcb ∧ s.priority rtcb < s.priority t

theorem addReadytorun_spec (lists : Lists idle s) (out : s.taskState t = .invalid) :
    ∃ s' added, addReadytorun s t = some (s', added) ∧ Added idle s t s' added := by
  obtain ⟨rtcb, rest, head⟩ := lists.exists_head
  have head_eq : s.readytorun.head? = some rtcb := by rw [head]; rfl
  have fresh : t ∉ s.pendingtasks := by simp [lists.pending, out]
  by_cases pend : 0 < s.lockcount rtcb ∧ s.priority rtcb < s.priority t
  · have changed : insert s.priority t s.pendingtasks ≠ s.pendingtasks := fun same =>
      fresh (same ▸ mem_insert.2 (.inl rfl))
    exact ⟨_, false, by rw [addReadytorun, head]; exact if_pos pend, {
      lists := lists.addPending out
      lockcount := rfl
      priority := rfl
      head := rfl
      unlocked := by simp
      lower := by simpa using fun same => absurd same changed
      pending := .inr ⟨rtcb, head_eq, pend⟩ }⟩
  have lists' := lists.addRunnable out head
  refine ⟨(addRunnable s rtcb t).1, (addRunnable s rtcb t).2,
    by rw [addReadytorun, head]; exact if_neg pend, ?_⟩
  by_cases lower : s.priority rtcb < s.priority t
  · rw [addRunnable_of_lt head lower] at lists' ⊢
    refine ⟨lists', rfl, rfl, ?_, ?_, ?_, .inl rfl⟩
    · simp [head, head?_insert_cons, lower]
    · intro _ r head_r
      rw [head_eq, Option.some.injEq] at head_r
      subst head_r
      exact Nat.eq_zero_of_not_pos fun locked => pend ⟨locked, lower⟩
    · simpa [head_eq] using lower
  rw [addRunnable_of_le head (not_lt.1 lower)] at lists' ⊢
  refine ⟨lists', rfl, rfl, ?_, by simp, ?_, .inl rfl⟩
  · simp [head, head?_insert_cons, lower]
  · simpa [head_eq] using lower

variable {added removed : Bool}

omit [DecidableEq τ] in
theorem Added.pendingLocked (add : Added idle s t s' added) (locked : PendingLocked s) :
    PendingLocked s' := by
  intro some_pending
  have head_locked : ∃ rtcb, s.readytorun.head? = some rtcb ∧ 0 < s.lockcount rtcb := by
    cases add.pending with
    | inl same => exact locked (same ▸ some_pending)
    | inr pended =>
      obtain ⟨rtcb, head, positive, _⟩ := pended
      exact ⟨rtcb, head, positive⟩
  obtain ⟨rtcb, head, positive⟩ := head_locked
  cases added with
  | true => exact absurd (add.unlocked rfl rtcb head) (positive.ne')
  | false => exact ⟨rtcb, by simpa [head] using add.head, by rwa [add.lockcount]⟩

/-- What `nxsched_remove_readytorun` does with a task other than the idle task. -/
structure Removed (idle : τ) (s : State τ) (t : τ) (s' : State τ) (removed : Bool) : Prop where
  lists : Lists idle s'
  out : s'.taskState t = .invalid
  pending : s'.pendingtasks = s.pendingtasks
  lockcount : s'.lockcount = s.lockcount
  priority : s'.priority = s.priority
  removed_iff : removed = true ↔ s.readytorun.head? = some t
  head : s'.readytorun.head? = if removed then s.readytorun.tail.head? else s.readytorun.head?

theorem removeReadytorun_spec (lists : Lists idle s) (not_idle : t ≠ idle)
    (listed : s.taskState t = .running ∨ s.taskState t = .readytorun) :
    ∃ s' removed, removeReadytorun s t = some (s', removed) ∧ Removed idle s t s' removed := by
  obtain ⟨rtcb, rest, ready⟩ := lists.exists_head
  by_cases first : rtcb = t
  · subst first
    obtain ⟨next, rest', tail⟩ := lists.exists_next not_idle ready
    subst tail
    exact ⟨_, true, by rw [removeReadytorun, ready]; exact if_pos rfl, {
      lists := lists.removeHead not_idle ready
      out := by simp
      pending := rfl
      lockcount := rfl
      priority := rfl
      removed_iff := by simp [ready]
      head := by simp [ready] }⟩
  have is_ready : s.taskState t = .readytorun := by
    cases listed with
    | inl running =>
      rw [lists.running, ready, head?_cons, Option.some.injEq] at running
      exact absurd running first
    | inr is_ready => exact is_ready
  exact ⟨{ s with readytorun := s.readytorun.erase t }.setState t .invalid, false,
    by simp [removeReadytorun, ready, first], {
    lists := lists.removeLater not_idle is_ready
    out := by simp
    pending := rfl
    lockcount := rfl
    priority := rfl
    removed_iff := by simp [ready, first]
    head := by simp [ready, erase_cons_tail, first] }⟩

omit [DecidableEq τ] in
theorem Removed.pendingLocked (remove : Removed idle s t s' removed) (locked : PendingLocked s)
    (allowed : s.readytorun.head? = some t → s.pendingtasks = []) : PendingLocked s' := by
  intro some_pending
  rw [remove.pending] at some_pending
  obtain ⟨rtcb, head, positive⟩ := locked some_pending
  cases removed with
  | true => exact absurd (allowed (remove.removed_iff.1 rfl)) some_pending
  | false => exact ⟨rtcb, by rw [remove.head]; exact head, by rwa [remove.lockcount]⟩

/-! ## Priorities -/

/-- Taking a task off `g_readytorun` and adding it again with another priority. -/
theorem readd_spec (lists : Lists idle s) (not_idle : t ≠ idle) (positive : 0 < p)
    (listed : s.taskState t = .running ∨ s.taskState t = .readytorun) :
    ∃ s₁ s₂ removed added, removeReadytorun s t = some (s₁, removed) ∧
      Removed idle s t s₁ removed ∧ addReadytorun (s₁.setPrio t p) t = some (s₂, added) ∧
      Added idle (s₁.setPrio t p) t s₂ added := by
  obtain ⟨s₁, removed, removes, remove⟩ := removeReadytorun_spec lists not_idle listed
  obtain ⟨s₂, added, adds, add⟩ :=
    addReadytorun_spec (remove.lists.setPrio_invalid remove.out positive) remove.out
  exact ⟨s₁, s₂, removed, added, removes, remove, adds, add⟩

theorem upReprioritizeRtr_eq {s₁ s₂ : State τ} (removes : removeReadytorun s t = some (s₁, removed))
    (adds : addReadytorun (s₁.setPrio t p) t = some (s₂, added)) :
    upReprioritizeRtr s t p = if removed ^^ added then mergeIfPending s₂ else some s₂ := by
  simp only [upReprioritizeRtr, removes, adds, bind_eq_bind, bind_some]

theorem upReprioritizeRtr_lists (lists : Lists idle s) (locked : PendingLocked s)
    (not_idle : t ≠ idle) (positive : 0 < p)
    (listed : s.taskState t = .running ∨ s.taskState t = .readytorun) :
    ∃ s', upReprioritizeRtr s t p = some s' ∧ Lists idle s' ∧ PendingLocked s' := by
  obtain ⟨s₁, s₂, removed, added, removes, remove, adds, add⟩ :=
    readd_spec lists not_idle positive listed
  obtain ⟨s₃, merges, merged⟩ := mergeIfPending_spec add.lists
  cases switch : removed ^^ added with
  | true =>
    exact ⟨s₃, by rw [upReprioritizeRtr_eq removes adds, switch, if_pos rfl, merges], merged.lists,
      merged.pendingLocked⟩
  | false =>
    refine ⟨s₂, by rw [upReprioritizeRtr_eq removes adds, switch]; rfl, add.lists, ?_⟩
    cases removed with
    | true =>
      -- the running task is back at the head, with the lock that it holds
      have back : added = true := by simpa using switch
      subst back
      intro some_pending
      have first := remove.removed_iff.1 rfl
      have same : s₂.pendingtasks = s.pendingtasks := by
        rw [(add.lower.1 rfl).1]
        exact remove.pending
      obtain ⟨rtcb, head, positive⟩ := locked (same ▸ some_pending)
      rw [first, Option.some.injEq] at head
      subst head
      have count : s₂.lockcount = s.lockcount := add.lockcount.trans remove.lockcount
      exact ⟨t, by rw [add.head]; rfl, by rwa [count]⟩
    | false =>
      have locked₁ : PendingLocked (s₁.setPrio t p) :=
        remove.pendingLocked locked fun first => by simpa using remove.removed_iff.2 first
      exact add.pendingLocked locked₁

/-- Changing the priority of a task that is neither running nor ready moves it within its list. -/
theorem blockedSetpriority_frame :
    (blockedSetpriority s t p).readytorun = s.readytorun ∧
      (blockedSetpriority s t p).taskState = s.taskState ∧
      (blockedSetpriority s t p).lockcount = s.lockcount := by
  unfold blockedSetpriority
  split
  · exact ⟨rfl, rfl, rfl⟩
  · split <;> exact ⟨rfl, rfl, rfl⟩
  · exact ⟨rfl, rfl, rfl⟩

theorem blockedSetpriority_lists (lists : Lists idle s) (not_idle : t ≠ idle) (positive : 0 < p)
    (unlisted : s.taskState t ≠ .running ∧ s.taskState t ≠ .readytorun) :
    Lists idle (blockedSetpriority s t p) := by
  have not_ready : t ∉ s.readytorun := by simp [lists.ready, unlisted]
  cases state : s.taskState t with
  | invalid =>
    rw [blockedSetpriority, state]
    exact lists.setPrio_invalid state positive
  | running => exact absurd state unlisted.1
  | readytorun => exact absurd state unlisted.2
  | pending =>
    have out := lists.removePending state
    have placed := (out.setPrio_invalid (update_self ..) positive).addPending
      (update_self ..)
    rw [blockedSetpriority, state]
    convert placed using 1
    simp [State.setPrio, State.setState, addPrioritized, state]
  | blocked w =>
    rw [blockedSetpriority, state]
    cases prioritized : w.isPrioritized with
    | true =>
      have out := lists.removeBlocked state
      have placed := (out.setPrio_invalid (update_self ..) positive).addBlocked
        (w := w) (update_self ..)
      convert placed using 1
      simp [State.setPrio, State.setState, State.setWaiting, addBlocked, addPrioritized, state,
        prioritized]
    | false =>
      have not_waiting : ∀ v, v.isPrioritized = true → t ∉ s.waiting v := by
        intro v v_prioritized
        rw [lists.blocked, state]
        rintro ⟨⟩
        simp [prioritized] at v_prioritized
      have placed := lists.setPrio not_idle positive (by simp [lists.pending, state])
        not_waiting not_ready
      simpa [prioritized] using placed

theorem terminate_taskState (returns : terminate s t = some s') :
    s'.taskState = update s.taskState t .invalid := by
  unfold terminate at returns
  split at returns <;> cases returns <;> rfl

end

end NuttxRtos.Sched
