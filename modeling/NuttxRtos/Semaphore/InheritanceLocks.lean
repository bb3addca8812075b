import NuttxRtos.Semaphore.Inheritance

/-! What boosting and restoring do to the priorities of one holder, and which records the locks have
after each operation. -/

namespace NuttxRtos.Semaphore.Inheritance

open List

open Function (update update_eq_self update_eq_self_iff update_of_ne update_self)

open PendingMax

open Holders (bumpNet_other bumpNet_same bumpNet)

section

variable {τ κ : Type} {s s' : State τ κ} {t u w htcb : τ} {k : κ} {p : ℕ}

/-! ## One holder -/

section

variable [DecidableEq τ]

theorem setPriority_running (absent : t ∉ s.sem.waiting) (p : ℕ) :
    setPriority s t p = { s with sched := update s.sched t p } := by
  simp [setPriority, absent]

def setLevel (s : State τ κ) (t : τ) (sched : ℕ) (pend : List ℕ) : State τ κ :=
  { s with sched := Function.update s.sched t sched, pend := Function.update s.pend t pend }

theorem setLevel_self : setLevel s t (s.sched t) (s.pend t) = s := by
  simp [setLevel]

variable {all : List ℕ}

theorem boostholderprio_spec (running : htcb ∉ s.sem.waiting)
    (rep : Represents (s.base htcb) (s.sched htcb) (s.pend htcb) all) (p : ℕ) :
    ∃ sched pend, boostholderprio p s htcb = setLevel s htcb sched pend ∧
      Represents (s.base htcb) sched pend (p :: all) := by
  unfold boostholderprio
  split
  · split
    · rename_i high
      refine ⟨p, _, ?_, rep.add_top high⟩
      rw [setPriority_running (by exact running)]
      rfl
    rename_i above low
    refine ⟨s.sched htcb, s.pend htcb ++ [p], ?_, rep.add_rest above (not_lt.1 low)⟩
    simp [setPend, setLevel]
  · rename_i low
    exact ⟨s.sched htcb, s.pend htcb, setLevel_self.symm, rep.add_low (not_lt.1 low)⟩

theorem restorePriority_spec (running : htcb ∉ s.sem.waiting)
    (rep : Represents (s.base htcb) (s.sched htcb) (s.pend htcb) (p :: all))
    (restorable : s.sched htcb = s.base htcb ∨ s.pend htcb ≠ [] ∨ s.base htcb < p) :
    ∃ sched pend left, restorePriority s htcb p = (setLevel s htcb sched pend, left) ∧
      Represents (s.base htcb) sched pend all ∧
      ∀ q, left = some q → s.base htcb = q ∧ sched = q ∧ pend = [] := by
  have back := rep.giveBack restorable
  unfold restorePriority
  unfold giveBack at back
  by_cases boosted : s.sched htcb ≠ s.base htcb
  · rw [if_pos boosted] at back ⊢
    cases pending : s.pend htcb with
    | nil =>
      rw [pending] at back
      refine ⟨s.base htcb, [], some (s.base htcb), ?_, back, fun q same => ?_⟩
      · have kept : update s.pend htcb [] = s.pend := by
          rw [← pending, update_eq_self]
        simp [setPriority_running running, setLevel, kept]
      · cases same
        exact ⟨rfl, rfl, rfl⟩
    | cons first others =>
      rw [pending] at back
      dsimp only at back ⊢
      by_cases high : s.sched htcb ≤ p
      · rw [if_pos high] at back ⊢
        refine ⟨(highestFrom first 0 1 others).1,
          moveLast (first :: others) (highestFrom first 0 1 others).2, none, ?_, back,
          fun q no => nomatch no⟩
        exact congrArg (fun x => (x, (none : Option ℕ))) (setPriority_running
          (s := setPend s htcb (moveLast (first :: others) (highestFrom first 0 1 others).2))
          running (highestFrom first 0 1 others).1)
      rw [if_neg high] at back ⊢
      cases found : (first :: others).findIdx? (· = p) with
      | none =>
        rw [found] at back
        exact ⟨_, _, none, by dsimp only; rw [← pending, setLevel_self], back, fun q no => nomatch no⟩
      | some i =>
        rw [found] at back
        exact ⟨_, _, none, by simp [setPend, setLevel], back, fun q no => nomatch no⟩
  rw [if_neg boosted] at back ⊢
  exact ⟨_, _, none, by rw [setLevel_self], back, fun q no => nomatch no⟩

theorem restorePriority_idle (idle : s.sched t = s.base t) (p : ℕ) :
    restorePriority s t p = (s, none) := by
  simp [restorePriority, idle]

theorem restoreholderprio_spec {stcb : τ} (running : htcb ∉ s.sem.waiting)
    (rep : Represents (s.base htcb) (s.sched htcb) (s.pend htcb) (s.sched stcb :: all))
    (restorable : Restorable s htcb stcb) :
    ∃ sched pend, restoreholderprio stcb s htcb = setLevel s htcb sched pend ∧
      Represents (s.base htcb) sched pend all ∧
      (s.sched htcb = s.base htcb → sched = s.sched htcb ∧ pend = s.pend htcb) := by
  by_cases idle : s.sched htcb = s.base htcb
  · refine ⟨s.sched htcb, s.pend htcb, ?_, ?_, fun _ => ⟨rfl, rfl⟩⟩
    · rw [restoreholderprio, restorePriority_idle idle, setLevel_self]
      rfl
    · rw [idle] at rep ⊢
      exact rep.remove_idle
  obtain ⟨sched, pend, left, restored, rep', rest⟩ := restorePriority_spec running rep restorable
  refine ⟨sched, pend, ?_, rep', fun same => absurd same idle⟩
  unfold restoreholderprio
  rw [restored]
  cases left with
  | none => rfl
  | some q =>
    obtain ⟨base, _, empty⟩ := rest q rfl
    subst base
    simp [finishRestore, setBase, setPend, setLevel, empty]

end

/-! ## The invariant -/

/-- The priorities of the tasks that wait for a semaphore that the task holds. -/
def waiters (s : State τ κ) (t : τ) : List ℕ :=
  (s.sem.waiting.filter fun w => (s.sem.waitsem w).any fun k => 0 < s.counts t k).map s.sched

/-- The priorities of each task are those of the tasks that wait for it, and what is left of a
`nxsched_reprioritize` changes nothing. -/
structure Priorities (s : State τ κ) : Prop where
  prio : ∀ t, Represents (s.base t) (s.sched t) (s.pend t) (waiters s t)
  left : ∀ t k p, (t, k, some p) ∈ s.posting → s.base t = p ∧ s.sched t = p ∧ s.pend t = []

theorem mem_waiters : p ∈ waiters s t ↔ ∃ w k, Waits s w k ∧ 0 < s.counts t k ∧ s.sched w = p := by
  simp only [waiters, mem_map, mem_filter, Option.any_eq_true, decide_eq_true_eq, Waits]
  constructor
  · rintro ⟨w, ⟨member, k, on, holds⟩, same⟩
    exact ⟨w, k, ⟨member, on⟩, holds, same⟩
  · rintro ⟨w, k, ⟨member, on⟩, holds, same⟩
    exact ⟨w, ⟨member, k, on, holds⟩, same⟩

theorem Priorities.exact (priorities : Priorities s) (t : τ) : Exact s t where
  base_le := (priorities.prio t).floor_le
  waiter_le := fun w k waits holds =>
    (priorities.prio t).le_top (mem_waiters.2 ⟨w, k, waits, holds, rfl⟩)
  attained := by
    by_cases idle : s.sched t = s.base t
    · exact .inl idle
    · exact .inr (mem_waiters.1 ((priorities.prio t).top_mem idle))

theorem waiters_congr {l : List τ} (waitsem : ∀ w ∈ l, s'.sem.waitsem w = s.sem.waitsem w)
    (sched : ∀ w ∈ l, s'.sched w = s.sched w)
    (counts : ∀ w ∈ l, ∀ j, s.sem.waitsem w = some j → s'.counts t j = s.counts t j) :
    (l.filter fun w => (s'.sem.waitsem w).any fun k => 0 < s'.counts t k).map s'.sched =
      (l.filter fun w => (s.sem.waitsem w).any fun k => 0 < s.counts t k).map s.sched := by
  have same : ∀ w ∈ l, ((s'.sem.waitsem w).any fun j => decide (0 < s'.counts t j)) =
      (s.sem.waitsem w).any fun j => decide (0 < s.counts t j) := by
    intro w member
    rw [waitsem w member]
    cases on : s.sem.waitsem w with
    | none => rfl
    | some j => simp [counts w member j on]
  rw [filter_congr same]
  apply map_congr_left
  intro w member
  exact sched w (mem_of_mem_filter member)

theorem waits_erase [DecidableEq τ] (nodup : s.sem.waiting.Nodup) (u : τ) (j : κ) :
    (u ∈ s.sem.waiting.erase w ∧ update s.sem.waitsem w none u = some j) ↔ Waits s u j ∧ u ≠ w := by
  rw [nodup.mem_erase_iff, Waits]
  by_cases same : u = w
  · subst same
    simp
  · simp [same]

section

variable [DecidableEq κ]

/-- Each lock is free or has one holder; the records are those of the holders and of the tasks in
`nxsem_post`; a semaphore that a task waits for has only the record of its holder, who is not
blocked, and no other task waits for it. -/
structure Locks (s : State τ κ) : Prop where
  sem : Semaphore.Inv s.sem
  calm : s.sem.cancelling = []
  lock : ∀ k, (available s.sem k = 1 ∧ ∀ t, s.counts t k = 0) ∨
    available s.sem k = 0 ∧ ∃ t, s.counts t k = 1 ∧ ∀ u, u ≠ t → s.counts u k = 0
  holder : ∀ k, ∀ t ∈ s.holders k, s.counts t k = 1 ∨ ∃ left, (t, k, left) ∈ s.posting
  recorded : ∀ k t, s.counts t k = 1 → t ∈ s.holders k
  nodup : ∀ k, (s.holders k).Nodup
  waited : ∀ w k, Waits s w k → ∃ t, s.counts t k = 1 ∧ s.holders k = [t] ∧ t ∉ s.sem.waiting
  single : ∀ w w' k, Waits s w k → Waits s w' k → w = w'
  posting : ∀ t k left, (t, k, left) ∈ s.posting → t ∉ s.sem.waiting

structure Inv (s : State τ κ) : Prop where
  locks : Locks s
  priorities : Priorities s

theorem Locks.holds_iff (locks : Locks s) (owns : 0 < s.counts t k) :
    s.counts t k = 1 ∧ available s.sem k = 0 ∧ ∀ u, u ≠ t → s.counts u k = 0 := by
  cases locks.lock k with
  | inl free =>
    have := free.2 t
    omega
  | inr held =>
    obtain ⟨zero, v, one, others⟩ := held
    have same : t = v := by
      by_contra other
      have := others t other
      omega
    rw [same]
    exact ⟨one, zero, others⟩

theorem Locks.owner_unique (locks : Locks s) (first : 0 < s.counts t k) (second : 0 < s.counts u k) :
    t = u := by
  by_contra other
  have := (locks.holds_iff second).2.2 t other
  omega

theorem Inv.waiting_idle (inv : Inv s) (member : w ∈ s.sem.waiting) : s.sched w = s.base w := by
  cases (inv.priorities.exact w).attained with
  | inl same => exact same
  | inr boosted =>
    obtain ⟨u, k, waits, holds, _⟩ := boosted
    obtain ⟨t, owns, _, running⟩ := inv.locks.waited u k waits
    rw [inv.locks.owner_unique holds (by omega : 0 < s.counts t k)] at member
    exact absurd member running

theorem Locks.nobody (locks : Locks s) (full : s.sem.semcount k = available s.sem k) (w : τ) :
    ¬ Waits s w k := by
  intro waits
  have negative := locks.sem.negative waits.1 waits.2
  have nonneg := locks.sem.nonneg k
  omega

theorem Locks.full_of_nobody (locks : Locks s) (nobody : ∀ w, ¬ Waits s w k) :
    s.sem.semcount k = available s.sem k := by
  have count := locks.sem.counted.count_eq k
  have zero : (s.sem.waiting.countP fun u => s.sem.waitsem u = some k) = 0 := by
    rw [countP_eq_zero]
    intro u member on
    exact nobody u ⟨member, by simpa using on⟩
  omega

/-- What an operation on the semaphore `k` has to show, if nobody waits for it afterwards. -/
theorem Locks.change (locks : Locks s) (sem : Semaphore.Inv s'.sem)
    (calm : s'.sem.cancelling = s.sem.cancelling)
    (counts : ∀ u j, j ≠ k → s'.counts u j = s.counts u j)
    (holders : ∀ j, j ≠ k → s'.holders j = s.holders j)
    (kept : ∀ j, j ≠ k → available s'.sem j = available s.sem j)
    (still : s'.sem.waiting ⊆ s.sem.waiting) (waits : ∀ w j, Waits s' w j → Waits s w j ∧ j ≠ k)
    {p : List (τ × κ × Option ℕ)} (posting : s'.posting = p ++ s.posting)
    (running : ∀ post ∈ p, post.1 ∉ s.sem.waiting)
    (lock : (available s'.sem k = 1 ∧ ∀ t, s'.counts t k = 0) ∨
      available s'.sem k = 0 ∧ ∃ t, s'.counts t k = 1 ∧ ∀ u, u ≠ t → s'.counts u k = 0)
    (holder : ∀ t ∈ s'.holders k, s'.counts t k = 1 ∨ ∃ left, (t, k, left) ∈ s'.posting)
    (recorded : ∀ t, s'.counts t k = 1 → t ∈ s'.holders k) (nodup : (s'.holders k).Nodup) :
    Locks s' := by
  refine ⟨sem, calm.trans locks.calm, fun j => ?_, fun j u member => ?_, fun j u one => ?_,
    fun j => ?_, fun w j waits' => ?_, fun w w' j first second => ?_, fun u j left post => ?_⟩
  · by_cases same : j = k
    · exact same ▸ lock
    · simpa only [kept j same, counts _ j same] using locks.lock j
  · by_cases same : j = k
    · subst same
      exact holder u member
    rw [holders j same] at member
    rw [counts u j same, posting]
    exact (locks.holder j u member).imp_right fun ⟨left, post⟩ => ⟨left, mem_append_right _ post⟩
  · by_cases same : j = k
    · subst same
      exact recorded u one
    rw [counts u j same] at one
    rw [holders j same]
    exact locks.recorded j u one
  · by_cases same : j = k
    · exact same ▸ nodup
    · exact holders j same ▸ locks.nodup j
  · obtain ⟨waits', other⟩ := waits w j waits'
    obtain ⟨u, one, alone, awake⟩ := locks.waited w j waits'
    exact ⟨u, (counts u j other).trans one, (holders j other).trans alone,
      fun member => awake (still member)⟩
  · exact locks.single w w' j (waits w j first).1 (waits w' j second).1
  · intro member
    rw [posting] at post
    cases mem_append.1 post with
    | inl new => exact running _ new (still member)
    | inr old => exact locks.posting u j left old (still member)

end

variable [DecidableEq τ] [DecidableEq κ]

/-! ## Taking a free lock -/

def taken (s : State τ κ) (t : τ) (k : κ) : State τ κ :=
  { s with
    sem := { s.sem with
      semcount := bump s.sem.semcount k (-1)
      waitsem := Function.update s.sem.waitsem t none
      waits := bump s.sem.waits k 1 }
    holders := Function.update s.holders k (t :: s.holders k)
    counts := bumpNet s.counts t k 1 }

theorem taken_locks (locks : Locks s) (active : Active s t) (positive : 0 < s.sem.semcount k) :
    Locks (taken s t k) ∧ t ∉ s.holders k := by
  have full := locks.sem.full (Int.le_of_lt positive)
  have nobody := locks.nobody full
  have free : available s.sem k = 1 ∧ ∀ u, s.counts u k = 0 := by
    cases locks.lock k with
    | inl free => exact free
    | inr held => omega
  have absent : t ∉ s.holders k := by
    intro member
    cases locks.holder k t member with
    | inl holds =>
      have := free.2 t
      omega
    | inr posts =>
      obtain ⟨left, posts⟩ := posts
      exact active.2 _ posts rfl
  have waits_iff : ∀ w j, Waits (taken s t k) w j ↔ Waits s w j := by
    refine fun w j => and_congr_right fun member => ?_
    change update s.sem.waitsem t _ w = some j ↔ _
    rw [update_of_ne fun same : w = t => active.1 (same ▸ member)]
  have counts_same : (taken s t k).counts t k = 1 := by
    change bumpNet s.counts t k 1 t k = 1
    rw [bumpNet_same, free.2 t]
    rfl
  have counts_other : ∀ u j, ¬ (u = t ∧ j = k) → (taken s t k).counts u j = s.counts u j :=
    fun u j other => bumpNet_other 1 other
  have holders_same : (taken s t k).holders k = t :: s.holders k := update_self ..
  refine ⟨locks.change (p := []) (Semaphore.take_inv locks.sem active.1 positive) rfl
    (fun u j other => counts_other u j fun both => other both.2)
    (fun j other => update_of_ne other ..) (fun j other => ?_) (fun _ member => member)
    (fun w j waits => ?_) rfl (by simp) (.inr ⟨?_, t, counts_same, fun u other => ?_⟩)
    (fun u member => ?_) (fun u one => ?_) ?_, absent⟩
  · simp [available, taken, bump, other]
  · have waits := (waits_iff w j).1 waits
    exact ⟨waits, fun same => nobody w (same ▸ waits)⟩
  · have one := free.1
    simp only [available, taken, bump, update_self] at one ⊢
    omega
  · rw [counts_other u k fun both => other both.1]
    exact free.2 u
  · rw [holders_same] at member
    cases mem_cons.1 member with
    | inl here => exact .inl (here ▸ counts_same)
    | inr old =>
      refine .inr ((locks.holder k u old).resolve_left fun holds => ?_)
      have := free.2 u
      omega
  · rw [holders_same]
    by_cases same : u = t
    · exact same ▸ mem_cons_self
    · rw [counts_other u k fun both => same both.1, free.2 u] at one
      cases one
  · rw [holders_same]
    exact nodup_cons.2 ⟨absent, locks.nodup k⟩

/-! ## Waiting for a lock -/

def blocked (s : State τ κ) (t : τ) (k : κ) (pos : ℕ) : State τ κ :=
  { s with
    sem := { s.sem with
      semcount := bump s.sem.semcount k (-1)
      waitsem := Function.update s.sem.waitsem t (some k)
      waiting := s.sem.waiting.take pos ++ t :: s.sem.waiting.drop pos } }

theorem blocked_locks (locks : Locks s) (active : Active s t) (none_left : ¬ 0 < s.sem.semcount k)
    (nobody : ∀ w, ¬ Waits s w k) (unwaited : ∀ j w, 0 < s.counts t j → ¬ Waits s w j)
    (owns : s.counts htcb k = 1) (alone : s.holders k = [htcb]) (other : htcb ≠ t)
    (running : htcb ∉ s.sem.waiting) (pos : ℕ) : Locks (blocked s t k pos) := by
  have perm : (blocked s t k pos).sem.waiting.Perm (t :: s.sem.waiting) := by
    refine perm_middle.trans (.cons t ?_)
    rw [take_append_drop]
  have waits_iff : ∀ w j, Waits (blocked s t k pos) w j ↔ w = t ∧ j = k ∨ Waits s w j := by
    intro w j
    change w ∈ (blocked s t k pos).sem.waiting ∧ update s.sem.waitsem t (some k) w = some j ↔ _
    rw [perm.mem_iff, mem_cons, Waits]
    by_cases same : w = t
    · subst same
      simp [active.1, eq_comm]
    · simp [same]
  have still : ∀ u, u ≠ t → u ∉ s.sem.waiting → u ∉ (blocked s t k pos).sem.waiting := by
    intro u other absent member
    cases mem_cons.1 (perm.mem_iff.1 member) with
    | inl same => exact other same
    | inr old => exact absent old
  refine ⟨Semaphore.block_inv locks.sem active.1 (Int.not_lt.1 none_left), locks.calm, locks.lock,
    locks.holder, locks.recorded, locks.nodup, fun w j waits => ?_, fun w w' j waits waits' => ?_,
    fun u j left posts => ?_⟩
  · cases (waits_iff w j).1 waits with
    | inl new =>
      rw [new.2]
      exact ⟨htcb, owns, alone, still htcb other running⟩
    | inr old =>
      obtain ⟨u, one, alone, absent⟩ := locks.waited w j old
      refine ⟨u, one, alone, still u (fun same => ?_) absent⟩
      subst same
      exact unwaited j w (by omega) old
  · cases (waits_iff w j).1 waits with
    | inl new =>
      cases (waits_iff w' j).1 waits' with
      | inl new' => rw [new.1, new'.1]
      | inr old' => exact absurd (new.2 ▸ old') (nobody w')
    | inr old =>
      cases (waits_iff w' j).1 waits' with
      | inl new' => exact absurd (new'.2 ▸ old) (nobody w)
      | inr old' => exact locks.single w w' j old old'
  · exact still u (active.2 _ posts) (locks.posting u j left posts)

/-! ## Releasing a lock -/

def released (s : State τ κ) (t : τ) (k : κ) : State τ κ :=
  { s with
    sem := { s.sem with
      semcount := bump s.sem.semcount k 1
      posts := bump s.sem.posts k 1 }
    counts := bumpNet s.counts t k (-1)
    posting := (t, k, none) :: s.posting }

def given (s : State τ κ) (t : τ) (k : κ) (w : τ) (left : Option ℕ) : State τ κ :=
  { s with
    sem := { s.sem with
      semcount := bump s.sem.semcount k 1
      posts := bump s.sem.posts k 1
      waitsem := Function.update s.sem.waitsem w none
      waiting := s.sem.waiting.erase w
      waits := bump s.sem.waits k 1 }
    holders := Function.update s.holders k (w :: s.holders k)
    counts := bumpNet (bumpNet s.counts t k (-1)) w k 1
    posting := (t, k, left) :: s.posting }

def interrupted (s : State τ κ) (w : τ) (k : κ) : State τ κ :=
  { s with
    sem := { s.sem with
      semcount := bump s.sem.semcount k 1
      waitsem := Function.update s.sem.waitsem w none
      waiting := s.sem.waiting.erase w } }

theorem released_locks (locks : Locks s) (active : Active s t) (owns : 0 < s.counts t k)
    (nobody : ∀ w, ¬ Waits s w k) : Locks (released s t k) := by
  obtain ⟨one, zero, others⟩ := locks.holds_iff owns
  have full := locks.full_of_nobody nobody
  have counts_other : ∀ u j, ¬ (u = t ∧ j = k) → (released s t k).counts u j = s.counts u j :=
    fun u j other => bumpNet_other _ other
  have counts_same : (released s t k).counts t k = 0 := by
    change bumpNet s.counts t k (-1) t k = 0
    rw [bumpNet_same, one]
    rfl
  have none_holds : ∀ u, (released s t k).counts u k = 0 := by
    intro u
    by_cases same : u = t
    · rw [same, counts_same]
    · rw [counts_other u k fun both => same both.1]
      exact others u same
  have sem : Semaphore.Inv (released s t k).sem := by
    refine locks.sem.change full ?_ ?_ (fun j other => ?_) rfl (fun _ _ => rfl) rfl
    · simp only [available, released, bump, update_self] at full ⊢
      omega
    · simp only [available, released, bump, update_self] at zero ⊢
      omega
    · simp [available, released, bump, other]
  refine locks.change (p := [(t, k, none)]) sem rfl
    (fun u j other => counts_other u j fun both => other both.2) (fun _ _ => rfl)
    (fun j other => ?_) (fun _ member => member)
    (fun w j waits => ⟨waits, fun same => nobody w (same ▸ waits)⟩) rfl (by simpa using active.1)
    (.inl ⟨?_, none_holds⟩) (fun u member => ?_) (fun u holds => ?_) (locks.nodup k)
  · simp [available, released, bump, other]
  · simp only [available, released, bump, update_self] at zero ⊢
    omega
  · by_cases same : u = t
    · exact .inr ⟨none, same ▸ mem_cons_self⟩
    have holder := (locks.holder k u member).resolve_left fun one => by
      rw [others u same] at one
      cases one
    exact .inr (holder.imp fun left post => mem_cons_of_mem _ post)
  · rw [none_holds] at holds
    cases holds

theorem given_locks (locks : Locks s) (active : Active s t) (owns : 0 < s.counts t k)
    (waits : Waits s w k) (left : Option ℕ) : Locks (given s t k w left) := by
  obtain ⟨one, zero, others⟩ := locks.holds_iff owns
  have apart : w ≠ t := fun same => active.1 (same ▸ waits.1)
  have alone : s.holders k = [t] := by
    obtain ⟨u, holds, alone, _⟩ := locks.waited w k waits
    rw [alone, locks.owner_unique owns (by omega : 0 < s.counts u k)]
  have counts_other : ∀ u j, j ≠ k → (given s t k w left).counts u j = s.counts u j := by
    intro u j other
    change bumpNet (bumpNet s.counts t k (-1)) w k 1 u j = s.counts u j
    rw [bumpNet_other 1 fun both => other both.2, bumpNet_other _ fun both =>
      other both.2]
  have counts_new : (given s t k w left).counts w k = 1 := by
    change bumpNet (bumpNet s.counts t k (-1)) w k 1 w k = 1
    rw [bumpNet_same, bumpNet_other _ fun both => apart both.1, others w apart]
    rfl
  have counts_rest : ∀ u, u ≠ w → (given s t k w left).counts u k = 0 := by
    intro u other
    change bumpNet (bumpNet s.counts t k (-1)) w k 1 u k = 0
    rw [bumpNet_other 1 fun both => other both.1]
    by_cases same : u = t
    · rw [same, bumpNet_same, one]
      rfl
    · rw [bumpNet_other _ fun both => same both.1, others u same]
  have waits_iff : ∀ u j, Waits (given s t k w left) u j ↔ Waits s u j ∧ u ≠ w :=
    waits_erase locks.sem.counted.nodup
  have holders_same : (given s t k w left).holders k = [w, t] := by
    change update s.holders k (w :: s.holders k) k = [w, t]
    rw [update_self, alone]
  have sem : Semaphore.Inv (given s t k w left).sem :=
    Semaphore.unblock_inv locks.sem waits.1 waits.2 (locks.sem.negative waits.1 waits.2)
      s.sem.cancelling
      locks.sem.once (by simp [locks.calm]) 1
  refine locks.change (p := [(t, k, left)]) sem rfl counts_other
    (fun j other => update_of_ne other ..) (fun j other => ?_) (fun _ member => mem_of_mem_erase member)
    (fun u j waits' => ?_) rfl (by simpa using active.1) (.inr ⟨?_, w, counts_new, counts_rest⟩)
    (fun u member => ?_) (fun u holds => ?_) ?_
  · simp [available, given, bump, other]
  · obtain ⟨waits', other⟩ := (waits_iff u j).1 waits'
    exact ⟨waits', fun same => other (locks.single u w k (same ▸ waits') waits)⟩
  · simp only [available, given, bump, update_self] at zero ⊢
    omega
  · rw [holders_same] at member
    cases mem_cons.1 member with
    | inl new => exact .inl (new ▸ counts_new)
    | inr old => exact .inr ⟨left, mem_singleton.1 old ▸ mem_cons_self⟩
  · have new : u = w := by
      by_contra other
      rw [counts_rest u other] at holds
      cases holds
    rw [holders_same, new]
    exact mem_cons_self
  · rw [holders_same]
    simp [apart]

theorem interrupted_locks (locks : Locks s) (waits : Waits s w k) : Locks (interrupted s w k) := by
  have waits_iff : ∀ u j, Waits (interrupted s w k) u j ↔ Waits s u j ∧ u ≠ w :=
    waits_erase locks.sem.counted.nodup
  have sem : Semaphore.Inv (interrupted s w k).sem := by
    have unblocked := Semaphore.unblock_inv locks.sem waits.1 waits.2 (locks.sem.negative waits.1 waits.2)
      s.sem.cancelling locks.sem.once (by simp [locks.calm]) 0
    simpa [interrupted, bump, update_eq_self_iff] using unblocked
  refine ⟨sem, locks.calm, locks.lock, locks.holder, locks.recorded, locks.nodup,
    fun u j waits' => ?_, fun u u' j first second => ?_, fun u j left posts => ?_⟩
  · obtain ⟨v, holds, alone, running⟩ := locks.waited u j ((waits_iff u j).1 waits').1
    exact ⟨v, holds, alone, fun member => running (mem_of_mem_erase member)⟩
  · exact locks.single u u' j ((waits_iff u j).1 first).1 ((waits_iff u' j).1 second).1
  · exact fun member => locks.posting u j left posts (mem_of_mem_erase member)

/-- The state after `nxsem_findandfreeholder`. -/
def postDone (s : State τ κ) (t : τ) (k : κ) (left : Option ℕ) : State τ κ :=
  { s with
    holders := if s.counts t k ≤ 0 then Function.update s.holders k ((s.holders k).erase t)
      else s.holders
    posting := s.posting.erase (t, k, left) }

theorem postDone_locks (locks : Locks s) (t : τ) (k : κ) (left : Option ℕ) :
    Locks (postDone s t k left) := by
  -- A record is kept unless it is that of the task and has no count.
  have mem_holders : ∀ j u, u ∈ (postDone s t k left).holders j ↔
      u ∈ s.holders j ∧ ¬ (u = t ∧ j = k ∧ s.counts t k ≤ 0) := by
    intro j u
    unfold postDone
    dsimp only
    split
    · rename_i empty
      by_cases same : j = k
      · subst same
        rw [update_self, (locks.nodup j).mem_erase_iff]
        simp [empty, and_comm]
      · simp [same]
    · rename_i holds
      simp [holds]
  have kept : ∀ u j, s.counts u j = 1 → ¬ (u = t ∧ j = k ∧ s.counts t k ≤ 0) := by
    rintro u j one ⟨rfl, rfl, empty⟩
    omega
  refine ⟨locks.sem, locks.calm, locks.lock, fun j u member => ?_, fun j u one => ?_, fun j => ?_,
    fun w j waits => ?_, locks.single, fun u j left' posts => ?_⟩
  · obtain ⟨member, stays⟩ := (mem_holders j u).1 member
    cases locks.holder j u member with
    | inl one => exact .inl one
    | inr posts =>
      obtain ⟨left', posts⟩ := posts
      by_cases same : u = t ∧ j = k
      · obtain ⟨rfl, rfl⟩ := same
        have positive : 0 < s.counts u j := by
          by_contra empty
          exact stays ⟨rfl, rfl, by omega⟩
        exact .inl (locks.holds_iff positive).1
      refine .inr ⟨left', (mem_erase_of_ne fun here => same ?_).2 posts⟩
      cases here
      exact ⟨rfl, rfl⟩
  · exact (mem_holders j u).2 ⟨locks.recorded j u one, kept u j one⟩
  · unfold postDone
    dsimp only
    split
    · by_cases same : j = k
      · rw [same, update_self]
        exact (locks.nodup k).erase t
      · rw [update_of_ne same]
        exact locks.nodup j
    · exact locks.nodup j
  · obtain ⟨u, one, alone, running⟩ := locks.waited w j waits
    refine ⟨u, one, ?_, running⟩
    unfold postDone
    dsimp only
    split
    · rename_i empty
      by_cases same : j = k
      · subst same
        have other : u ≠ t := by
          rintro rfl
          omega
        rw [update_self, alone, erase_of_not_mem (by simpa using other.symm)]
      · rw [update_of_ne same, alone]
    · exact alone
  · exact locks.posting u j left' (mem_of_mem_erase posts)

end

end NuttxRtos.Semaphore.Inheritance
