import NuttxRtos.Semaphore.InheritanceLocks

/-! Priorities over whole runs of tasks that use semaphores as locks. -/

namespace NuttxRtos.Semaphore.Inheritance

open List

open Function (update update_eq_self update_of_ne update_self)

open PendingMax

section

variable {τ κ : Type} {s s' : State τ κ} {t u w htcb : τ} {k : κ} {p : ℕ}

/-! ## Priorities -/

/-- The priorities of the waiting tasks, when one of them is looked at apart. -/
theorem waiters_perm {rest : List τ} (perm : s.sem.waiting.Perm (w :: rest))
    (on : s.sem.waitsem w = some k) :
    (waiters s t).Perm ((if 0 < s.counts t k then [s.sched w] else []) ++
      (rest.filter fun u => (s.sem.waitsem u).any fun k => 0 < s.counts t k).map s.sched) := by
  refine ((perm.filter _).map s.sched).trans (List.Perm.of_eq ?_)
  by_cases holds : 0 < s.counts t k
  · simp [on, holds]
  · simp [on, holds]

theorem initial_inv [DecidableEq κ] (priority : τ → ℕ) : Inv (initial priority : State τ κ) where
  locks := {
    sem := initialState_inv fun _ => 1
    calm := rfl
    lock := fun k => .inl ⟨rfl, fun _ => rfl⟩
    holder := by simp [initial]
    recorded := by simp [initial]
    nodup := fun _ => nodup_nil
    waited := fun w k waits => by simp [Waits, initial, initialState] at waits
    single := fun w w' k waits => by simp [Waits, initial, initialState] at waits
    posting := by simp [initial] }
  priorities := ⟨fun _ => .idle (by simp [waiters, initial, initialState]), by simp [initial]⟩

section

variable [DecidableEq τ]

/-- Only the priorities of one task, which is not in `nxsem_post`, change, and only the tasks that wait
for it. -/
theorem Priorities.change {sched : ℕ} {pend : List ℕ} (priorities : Priorities s)
    (base : s'.base = s.base) (scheds : s'.sched = update s.sched t sched)
    (pends : s'.pend = update s.pend t pend)
    (others : ∀ u, u ≠ t → (waiters s u).Perm (waiters s' u))
    (mine : Represents (s.base t) sched pend (waiters s' t))
    (left : ∀ u j p, (u, j, some p) ∈ s'.posting →
      u ≠ t ∧ (u, j, some p) ∈ s.posting ∨ u = t ∧ s.base t = p ∧ sched = p ∧ pend = []) :
    Priorities s' := by
  refine ⟨fun u => ?_, fun u j p posts => ?_⟩
  · rw [base, scheds, pends]
    by_cases same : u = t
    · rw [same, update_self, update_self]
      exact mine
    · rw [update_of_ne same, update_of_ne same]
      exact (priorities.prio u).congr (others u same)
  rw [base, scheds, pends]
  rcases left u j p posts with ⟨other, old⟩ | ⟨rfl, new⟩
  · rw [update_of_ne other, update_of_ne other]
    exact priorities.left u j p old
  · rw [update_self, update_self]
    exact new

/-- The priorities of the tasks other than `w` that wait for a semaphore that the task holds. -/
def waitersBut (s : State τ κ) (w t : τ) : List ℕ :=
  ((s.sem.waiting.erase w).filter fun u => (s.sem.waitsem u).any fun k => 0 < s.counts t k).map
    s.sched

theorem waiters_split (waits : Waits s w k) (t : τ) :
    (waiters s t).Perm ((if 0 < s.counts t k then [s.sched w] else []) ++ waitersBut s w t) :=
  waiters_perm (perm_cons_erase waits.1) waits.2

theorem waiters_removed (nodup : s.sem.waiting.Nodup)
    (waiting : s'.sem.waiting = s.sem.waiting.erase w)
    (waitsem : s'.sem.waitsem = update s.sem.waitsem w none)
    (sched : ∀ v ∈ s.sem.waiting, s'.sched v = s.sched v)
    (counts : ∀ v j, Waits s v j → v ≠ w → s'.counts t j = s.counts t j) :
    waiters s' t = waitersBut s w t := by
  have inside : ∀ v ∈ s.sem.waiting.erase w, v ≠ w ∧ v ∈ s.sem.waiting :=
    fun v => nodup.mem_erase_iff.1
  unfold waiters
  rw [waiting]
  refine waiters_congr (fun v member => ?_) (fun v member => sched v (inside v member).2)
    fun v member j on => counts v j ⟨(inside v member).2, on⟩ (inside v member).1
  rw [waitsem, update_of_ne (inside v member).1]

/-- The only other holder is the task that got the count, which is not boosted. -/
theorem restoreBaseprio_eq {stcb : τ} (others : (s.holders k).filter (· ≠ t) = [stcb])
    (idle : s.sched stcb = s.base stcb) :
    restoreBaseprio s t k stcb = restorePriority s t (s.sched stcb) := by
  have kept : restoreholderprio stcb s stcb = s := by
    rw [restoreholderprio, restorePriority_idle idle]
    rfl
  rw [restoreBaseprio, others, foldl_cons, foldl_nil, kept]

end

variable [DecidableEq τ] [DecidableEq κ]

theorem taken_priorities (inv : Inv s) (active : Active s t) (positive : 0 < s.sem.semcount k) :
    Priorities (taken s t k) := by
  have nobody := inv.locks.nobody (inv.locks.sem.full (Int.le_of_lt positive))
  refine ⟨fun u => ?_, inv.priorities.left⟩
  have same : waiters (taken s t k) u = waiters s u := by
    refine waiters_congr (fun w member => ?_) (fun _ _ => rfl) fun w member j on => ?_
    · exact update_of_ne (fun same : w = t => active.1 (same ▸ member)) _ _
    · exact Holders.bumpNet_other 1 fun both => nobody w ⟨member, both.2 ▸ on⟩
  rw [same]
  exact inv.priorities.prio u

variable {sched : ℕ} {pend : List ℕ}

theorem blocked_priorities (inv : Inv s) (active : Active s t) (owns : s.counts htcb k = 1)
    (other : htcb ≠ t) (running : Active s htcb) (pos : ℕ)
    (rep : Represents (s.base htcb) sched pend (s.sched t :: waiters s htcb)) :
    Priorities (blocked (setLevel s htcb sched pend) t k pos) := by
  have perm : (blocked (setLevel s htcb sched pend) t k pos).sem.waiting.Perm
      (t :: s.sem.waiting) := by
    refine perm_middle.trans (.cons t ?_)
    rw [take_append_drop]
    rfl
  have on : (blocked (setLevel s htcb sched pend) t k pos).sem.waitsem t = some k :=
    update_self ..
  have new_sched : (blocked (setLevel s htcb sched pend) t k pos).sched t = s.sched t :=
    update_of_ne other.symm ..
  have rest : ∀ u, (s.sem.waiting.filter fun v =>
      ((blocked (setLevel s htcb sched pend) t k pos).sem.waitsem v).any fun j =>
        0 < s.counts u j).map (blocked (setLevel s htcb sched pend) t k pos).sched =
      waiters s u := by
    intro u
    refine waiters_congr (fun v member => ?_) (fun v member => ?_) fun _ _ _ _ => rfl
    · exact update_of_ne (fun same : v = t => active.1 (same ▸ member)) _ _
    · exact update_of_ne (fun same : v = htcb => running.1 (same ▸ member)) _ _
  have counted : ∀ u, (waiters (blocked (setLevel s htcb sched pend) t k pos) u).Perm
      ((if 0 < s.counts u k then [s.sched t] else []) ++ waiters s u) := by
    intro u
    have split := waiters_perm (t := u) perm on
    rwa [new_sched, show (blocked (setLevel s htcb sched pend) t k pos).counts = s.counts from rfl,
      rest u] at split
  refine inv.priorities.change rfl rfl rfl (fun u apart => ?_) ?_
    fun u j p posts => .inl ⟨running.2 _ posts, posts⟩
  · have none_held : ¬ 0 < s.counts u k := fun holds =>
      apart (inv.locks.owner_unique holds (by omega))
    simpa [none_held] using (counted u).symm
  have mine := counted htcb
  rw [if_pos (by omega)] at mine
  exact rep.congr mine.symm

variable {left : Option ℕ}

theorem given_priorities (inv : Inv s) (active : Active s t) (owns : 0 < s.counts t k)
    (waits : Waits s w k) (rep : Represents (s.base t) sched pend (waitersBut s w t))
    (done : ∀ p, left = some p → s.base t = p ∧ sched = p ∧ pend = []) :
    Priorities (given (setLevel s t sched pend) t k w left) := by
  obtain ⟨one, _, others⟩ := inv.locks.holds_iff owns
  have removed : ∀ u, waiters (given (setLevel s t sched pend) t k w left) u = waitersBut s w u := by
    intro u
    refine waiters_removed inv.locks.sem.counted.nodup rfl rfl (fun v member => ?_)
      fun v j waits' other => ?_
    · exact update_of_ne (fun same : v = t => active.1 (same ▸ member)) _ _
    have elsewhere : j ≠ k := fun same => other (inv.locks.single v w k (same ▸ waits') waits)
    change Holders.bumpNet (Holders.bumpNet s.counts t k (-1)) w k 1 u j = s.counts u j
    rw [Holders.bumpNet_other 1 fun both => elsewhere both.2,
      Holders.bumpNet_other _ fun both => elsewhere both.2]
  refine inv.priorities.change rfl rfl rfl (fun u apart => ?_) ?_ fun u j p posts => ?_
  · have none_held : ¬ 0 < s.counts u k := by
      have := others u apart
      omega
    rw [removed u]
    simpa [none_held] using waiters_split waits u
  · rw [removed t]
    exact rep
  cases mem_cons.1 posts with
  | inl new =>
    cases new
    exact .inr ⟨rfl, done p rfl⟩
  | inr old => exact .inl ⟨active.2 _ old, old⟩

theorem interrupted_priorities (inv : Inv s) (owns : s.counts htcb k = 1)
    (running : htcb ∉ s.sem.waiting) (waits : Waits s w k)
    (rep : Represents (s.base htcb) sched pend (waitersBut s w htcb))
    (idle : ∀ j p, (htcb, j, some p) ∈ s.posting → s.base htcb = p ∧ sched = p ∧ pend = []) :
    Priorities (interrupted (setLevel s htcb sched pend) w k) := by
  have removed : ∀ u, waiters (interrupted (setLevel s htcb sched pend) w k) u =
      waitersBut s w u := by
    intro u
    refine waiters_removed inv.locks.sem.counted.nodup rfl rfl (fun v member => ?_)
      fun _ _ _ _ => rfl
    exact update_of_ne (fun same : v = htcb => running (same ▸ member)) _ _
  refine inv.priorities.change rfl rfl rfl (fun u apart => ?_) ?_ fun u j p posts => ?_
  · have none_held : ¬ 0 < s.counts u k := fun holds =>
      apart (inv.locks.owner_unique holds (by omega))
    rw [removed u]
    simpa [none_held] using waiters_split waits u
  · rw [removed htcb]
    exact rep
  by_cases same : u = htcb
  · subst same
    exact .inr ⟨rfl, idle j p posts⟩
  · exact .inl ⟨same, posts⟩

theorem released_priorities (inv : Inv s) (nobody : ∀ w, ¬ Waits s w k) :
    Priorities (released s t k) := by
  have same : ∀ u, waiters (released s t k) u = waiters s u := by
    intro u
    refine waiters_congr (fun _ _ => rfl) (fun _ _ => rfl) fun w member j on => ?_
    exact Holders.bumpNet_other _ fun both => nobody w ⟨member, both.2 ▸ on⟩
  refine ⟨fun u => ?_, fun u j p posts => ?_⟩
  · rw [same]
    exact inv.priorities.prio u
  cases mem_cons.1 posts with
  | inl new => cases new
  | inr old => exact inv.priorities.left u j p old

/-! ## Steps -/

theorem Locks.setLevel (locks : Locks s) (t : τ) (sched : ℕ) (pend : List ℕ) :
    Locks (setLevel s t sched pend) :=
  { locks with }

/-- A lock that is not available, that nobody waits for and whose records are not of tasks in
`nxsem_post` has the record of its holder alone. -/
theorem Locks.holder_alone (locks : Locks s) (none_left : ¬ 0 < s.sem.semcount k)
    (nobody : ∀ w, ¬ Waits s w k) (ready : ∀ htcb ∈ s.holders k, ∀ p ∈ s.posting, p.1 ≠ htcb) :
    ∃ htcb, s.counts htcb k = 1 ∧ s.holders k = [htcb] := by
  have full := locks.full_of_nobody nobody
  cases locks.lock k with
  | inl free => omega
  | inr held =>
    obtain ⟨_, htcb, one, others⟩ := held
    refine ⟨htcb, one, ?_⟩
    have only : ∀ u ∈ s.holders k, u = htcb := by
      intro u member
      by_contra other
      cases locks.holder k u member with
      | inl holds =>
        have := others u other
        omega
      | inr posts =>
        obtain ⟨left, posts⟩ := posts
        exact ready u member _ posts rfl
    have member := locks.recorded k htcb one
    have nodup := locks.nodup k
    cases list : s.holders k with
    | nil =>
      rw [list] at member
      cases member
    | cons first rest =>
      rw [list] at only nodup
      have first_eq := only first mem_cons_self
      have rest_eq : rest = [] := by
        refine eq_nil_iff_forall_not_mem.2 fun u inside => ?_
        rw [only u (mem_cons_of_mem first inside), ← first_eq] at inside
        exact (nodup_cons.1 nodup).1 inside
      rw [first_eq, rest_eq]

theorem wait_inv (inv : Inv s) (active : Active s t) (regular : Regular s (.wait t k)) :
    Inv (wait s t k) ∧ (wait s t k).base = s.base := by
  unfold wait
  by_cases positive : 0 < s.sem.semcount k
  · obtain ⟨locks, absent⟩ := taken_locks inv.locks active positive
    have same : addHolder { s with sem := Semaphore.wait s.sem t k 0 } k t = taken s t k := by
      rw [addHolder, if_neg (by exact absent), Semaphore.wait, if_pos positive]
      rfl
    rw [if_pos positive, same]
    exact ⟨⟨locks, taken_priorities inv active positive⟩, rfl⟩
  obtain ⟨nobody, unwaited, ready⟩ := regular.resolve_left positive
  obtain ⟨htcb, owns, alone⟩ := inv.locks.holder_alone positive nobody fun u member =>
    (ready u member).2.2
  obtain ⟨other, running⟩ := ready htcb (by simp [alone])
  obtain ⟨sched, pend, boosted, rep⟩ :=
    boostholderprio_spec running.1 (inv.priorities.prio htcb) (s.sched t)
  rw [if_neg positive, alone]
  simp only [foldl_cons, foldl_nil, boosted]
  rw [Semaphore.wait, if_neg (by exact positive)]
  exact ⟨⟨blocked_locks (inv.locks.setLevel htcb sched pend) active positive nobody unwaited owns
    alone other running.1 _, blocked_priorities inv active owns other running _ rep⟩, rfl⟩

theorem post_inv (inv : Inv s) (active : Active s t) (owns : 0 < s.counts t k)
    (regular : Regular s (.post t k)) : Inv (post s t k) ∧ (post s t k).base = s.base := by
  have low : ¬ semValueMax ≤ s.sem.semcount k := by
    have zero := (inv.locks.holds_iff owns).2.1
    have le := inv.locks.sem.semcount_le k
    unfold semValueMax
    omega
  unfold post
  rw [if_neg low]
  by_cases waited : ∃ w, Waits s w k
  · obtain ⟨w, waits⟩ := waited
    have negative := inv.locks.sem.negative waits.1 waits.2
    obtain ⟨stcb, found, member, on⟩ := inv.locks.sem.find negative
    have same : stcb = w := inv.locks.single stcb w k ⟨member, on⟩ waits
    subst same
    have next : Holders.receiver s.sem k = some stcb := by
      rw [Holders.receiver, if_pos (by omega), found]
    have alone : s.holders k = [t] := by
      obtain ⟨u, holds, alone, _⟩ := inv.locks.waited stcb k waits
      rw [alone, inv.locks.owner_unique owns (by omega : 0 < s.counts u k)]
    have apart : stcb ≠ t := fun same => active.1 (same ▸ member)
    have posted : Semaphore.post s.sem k = { s.sem with
        semcount := bump s.sem.semcount k 1
        posts := bump s.sem.posts k 1
        waitsem := update s.sem.waitsem stcb none
        waiting := s.sem.waiting.erase stcb
        waits := bump s.sem.waits k 1 } := by
      have negative' : bump s.sem.semcount k 1 k ≤ 0 := by
        simp only [bump, update_self]
        omega
      rw [Semaphore.post, if_neg low]
      rw [if_pos negative', found]
    have added : addHolder { s with
        sem := Semaphore.post s.sem k
        counts := Holders.bumpNet s.counts t k (-1) } k stcb =
        { given s t k stcb none with posting := s.posting } := by
      rw [addHolder, if_neg (by simpa [alone] using apart), posted]
      rfl
    have others : ((update s.holders k (stcb :: s.holders k) k).filter (· ≠ t)) = [stcb] := by
      simp [alone, apart]
    have idle : s.sched stcb = s.base stcb := inv.waiting_idle member
    have rep : Represents (s.base t) (s.sched t) (s.pend t)
        (s.sched stcb :: waitersBut s stcb t) := by
      have split := waiters_split waits t
      rw [if_pos owns] at split
      exact (inv.priorities.prio t).congr split
    obtain ⟨sched, pend, left, restored, rep', done⟩ :=
      restorePriority_spec (s := { given s t k stcb none with posting := s.posting })
        (fun inside => active.1 (mem_of_mem_erase inside)) rep (regular stcb waits)
    have restored' := (restoreBaseprio_eq
      (s := { given s t k stcb none with posting := s.posting }) others idle).trans restored
    rw [next]
    simp only [added, restored']
    exact ⟨⟨given_locks (inv.locks.setLevel t sched pend) active owns waits left,
      given_priorities inv active owns waits rep' done⟩, rfl⟩
  have nobody : ∀ w, ¬ Waits s w k := fun w waits => waited ⟨w, waits⟩
  have zero : s.sem.semcount k = 0 := by
    rw [inv.locks.full_of_nobody nobody, (inv.locks.holds_iff owns).2.1]
  have next : Holders.receiver s.sem k = none := by
    rw [Holders.receiver, if_neg (by omega)]
  have posted : Semaphore.post s.sem k = { s.sem with
      semcount := bump s.sem.semcount k 1
      posts := bump s.sem.posts k 1 } := by
    rw [Semaphore.post, if_neg low]
    simp [bump, zero]
  rw [next, posted]
  exact ⟨⟨released_locks inv.locks active owns nobody, released_priorities inv nobody⟩, rfl⟩

theorem postEnd_inv (inv : Inv s) (posts : (t, k, left) ∈ s.posting) :
    Inv (postEnd s t k left) ∧ (postEnd s t k left).base = s.base := by
  have finished : finishRestore s t left = s := by
    cases left with
    | none => rfl
    | some p =>
      obtain ⟨base, _, pend⟩ := inv.priorities.left t k p posts
      rw [finishRestore, setBase, setPend, ← base, ← pend, update_eq_self, update_eq_self]
  have same : postEnd s t k left = postDone s t k left := by
    rw [postEnd, finished]
    rfl
  rw [same]
  exact ⟨⟨postDone_locks inv.locks t k left, inv.priorities.prio, fun u j p posts =>
    inv.priorities.left u j p (mem_of_mem_erase posts)⟩, rfl⟩

theorem waitIrq_inv (inv : Inv s) (regular : Regular s (.waitIrq w false)) :
    ∃ s', waitIrq s w false = some s' ∧ Inv s' ∧ s'.base = s.base := by
  unfold waitIrq
  by_cases member : w ∈ s.sem.waiting
  · obtain ⟨k, on⟩ := inv.locks.sem.waits w member
    have waits : Waits s w k := ⟨member, on⟩
    obtain ⟨htcb, owns, alone, running⟩ := inv.locks.waited w k waits
    have rep : Represents (s.base htcb) (s.sched htcb) (s.pend htcb)
        (s.sched w :: waitersBut s w htcb) := by
      have split := waiters_split waits htcb
      rw [if_pos (by omega)] at split
      exact (inv.priorities.prio htcb).congr split
    obtain ⟨sched, pend, restored, rep', idle⟩ :=
      restoreholderprio_spec running rep (regular.2 k waits htcb (by simp [alone]))
    have done : s.sem.cancelling.erase (w, k) = s.sem.cancelling := by
      rw [inv.locks.calm]
      rfl
    refine ⟨interrupted (setLevel s htcb sched pend) w k, ?_,
      ⟨interrupted_locks (inv.locks.setLevel htcb sched pend) waits,
        interrupted_priorities inv owns running waits rep' fun j p posts => ?_⟩, rfl⟩
    · rw [if_pos member, on, Option.map_some, canceled, alone, foldl_cons, foldl_nil, restored]
      simp only [Semaphore.cancelFinish, setLevel, done]
      rfl
    obtain ⟨base, level, empty⟩ := inv.priorities.left htcb j p posts
    obtain ⟨sched_eq, pend_eq⟩ := idle (level.trans base.symm)
    exact ⟨base, sched_eq.trans level, pend_eq.trans empty⟩
  · exact ⟨s, by rw [if_neg member], inv, rfl⟩

theorem reprioritize_inv (inv : Inv s) (regular : Regular s (.reprioritize t p)) :
    Inv (reprioritize s t p) := by
  obtain ⟨active, unwaited⟩ := regular
  have same : reprioritize s t p = { setLevel s t p [] with base := update s.base t p } := by
    rw [reprioritize, setPriority_running active.1]
    rfl
  have locks := inv.locks.setLevel t p []
  rw [same]
  refine ⟨{ locks with }, fun u => ?_, fun u j q posts => ?_⟩
  · change Represents (update s.base t p u) (update s.sched t p u)
      (update s.pend t [] u) (waiters (setLevel s t p []) u)
    have same : waiters (setLevel s t p []) u = waiters s u := by
      refine waiters_congr (fun _ _ => rfl) (fun w member => ?_) fun _ _ _ _ => rfl
      exact update_of_ne (fun same : w = t => active.1 (same ▸ member)) _ _
    rw [same]
    by_cases here : u = t
    · subst here
      simp only [update_self]
      refine .idle fun q member => ?_
      obtain ⟨w, j, waits, holds, _⟩ := mem_waiters.1 member
      exact absurd waits (unwaited j w holds)
    · simp only [ne_eq, here, not_false_eq_true, update_of_ne]
      exact inv.priorities.prio u
  have other : u ≠ t := active.2 _ posts
  change update s.base t p u = q ∧ update s.sched t p u = q ∧ update s.pend t [] u = []
  simp only [ne_eq, other, not_false_eq_true, update_of_ne]
  exact inv.priorities.left u j q posts

/-- Every operation returns and keeps the invariant, and only an explicit reprioritization changes a
base priority. -/
theorem step_inv (inv : Inv s) (op : PriorityOp τ κ) (valid : Valid s op) (regular : Regular s op) :
    ∃ s', step s op = some s' ∧ Inv s' ∧ ((∀ t p, op ≠ .reprioritize t p) → s'.base = s.base) := by
  cases op with
  | wait t k =>
    obtain ⟨inv', base⟩ := wait_inv inv valid regular
    exact ⟨_, rfl, inv', fun _ => base⟩
  | trywait t k =>
    refine ⟨_, rfl, ?_, fun _ => rfl⟩
    rw [trywait, Semaphore.trywait, if_neg regular]
    exact inv
  | post t k =>
    obtain ⟨inv', base⟩ := post_inv inv valid.1 valid.2 regular
    exact ⟨_, rfl, inv', fun _ => base⟩
  | postEnd t k left =>
    obtain ⟨inv', base⟩ := postEnd_inv inv valid
    exact ⟨_, rfl, inv', fun _ => base⟩
  | waitIrq w switched =>
    obtain ⟨stays, _⟩ := id regular
    subst stays
    obtain ⟨s', returned, inv', base⟩ := waitIrq_inv inv regular
    exact ⟨s', returned, inv', fun _ => base⟩
  | cancelFinish w k =>
    have begun : (w, k) ∈ s.sem.cancelling := valid
    rw [inv.locks.calm] at begun
    cases begun
  | reprioritize t p =>
    exact ⟨_, rfl, reprioritize_inv inv regular, fun other => absurd rfl (other t p)⟩

theorem Run.inv (run : Run Regular s) : Inv s := by
  induction run with
  | init priority => exact initial_inv priority
  | step _ op valid regular returns ih =>
    obtain ⟨s', returned, inv, _⟩ := step_inv ih op valid regular
    rw [returns, Option.some.injEq] at returned
    exact returned ▸ inv

/-- In regular runs: the priority of every task is the highest of its base priority and those of the
tasks that wait for what it holds; and every regular step returns and changes no base priority
unless it is an explicit reprioritization. -/
theorem run_priorities (run : Run Regular s) :
    (∀ t, Exact s t) ∧ (∀ t, (∀ k, ¬ 0 < s.counts t k) → s.sched t = s.base t) ∧
    ∀ op, Valid s op → Regular s op → ∃ s', step s op = some s' ∧
      ((∀ t p, op ≠ .reprioritize t p) → s'.base = s.base) := by
  have inv := run.inv
  refine ⟨inv.priorities.exact, fun t nothing => ?_, fun op valid regular => ?_⟩
  · cases (inv.priorities.exact t).attained with
    | inl same => exact same
    | inr boosted =>
      obtain ⟨_, k, _, holds, _⟩ := boosted
      exact absurd holds (nothing k)
  · obtain ⟨s', returns, _, base⟩ := step_inv inv op valid regular
    exact ⟨s', returns, base⟩

end

def threeTasks (first second third : ℕ) : State (Fin 3) Bool :=
  initial fun t => if t.val = 0 then first else if t.val = 1 then second else third

/-- The holder of a lock gets the priority of the task that waits for it. -/
theorem run_priorities_boosted :
    ∃ s : State (Fin 3) Bool, Run Regular s ∧ Waits s 1 false ∧ 0 < s.counts 0 false ∧
      s.sched 1 = 20 ∧ s.sched 1 ≤ s.sched 0 := by
  have first : Run Regular (threeTasks 10 20 30) := .init _
  have held := first.step (.wait 0 false) ⟨by decide, by decide⟩ (.inl (by decide)) rfl
  have waits := held.step (.wait 1 false) ⟨by decide, by decide⟩
    (.inr ⟨fun _ waits => absurd waits.1 not_mem_nil, fun _ _ _ waits => absurd waits.1 not_mem_nil,
      fun htcb member => by
        cases mem_singleton.1 member
        exact ⟨by decide, by decide, by decide⟩⟩) rfl
  exact ⟨_, waits, ⟨mem_singleton.2 rfl, rfl⟩, by decide, rfl,
    ((run_priorities waits).1 0).waiter_le 1 false ⟨mem_singleton.2 rfl, rfl⟩ (by decide)⟩

/-- Two tasks wait for one lock: after the post its former holder keeps the priority of the second.
Two locks are held: when a wait for the one is interrupted, the holder loses the priority of the
task that waits for the other. And a task that waits and is boosted does not boost the holder it
waits for. -/
theorem post_keeps_boost :
    (∃ s : State (Fin 3) Bool, Run (fun _ _ => True) s ∧ s.posting = [] ∧
      (∀ k, s.counts 0 k = 0) ∧ s.base 0 = 10 ∧ s.sched 0 = 20) ∧
    (∃ s : State (Fin 3) Bool, Run (fun _ _ => True) s ∧ s.counts 0 false = 1 ∧
      Waits s 1 false ∧ s.sched 1 = 30 ∧ s.sched 0 = 10) ∧
    ∃ s : State (Fin 3) Bool, Run (fun _ _ => True) s ∧ s.counts 0 false = 1 ∧
      Waits s 1 false ∧ s.sched 1 = 30 ∧ s.sched 0 = 20 := by
  refine ⟨?_, ?_, ?_⟩
  · have first : Run (fun _ _ => True) (threeTasks 10 20 30) := .init _
    have held := first.step (.wait 0 false) ⟨by decide, by decide⟩ trivial rfl
    have one := held.step (.wait 1 false) ⟨by decide, by decide⟩ trivial rfl
    have two := one.step (.wait 2 false) ⟨by decide, by decide⟩ trivial rfl
    have posted := two.step (.post 0 false) ⟨⟨by decide, by decide⟩, by decide⟩ trivial rfl
    have ended := posted.step (.postEnd 0 false none) (mem_cons_self) trivial rfl
    exact ⟨_, ended, rfl, by decide, rfl, rfl⟩
  · have first : Run (fun _ _ => True) (threeTasks 10 30 5) := .init _
    have one := first.step (.wait 0 false) ⟨by decide, by decide⟩ trivial rfl
    have both := one.step (.wait 0 true) ⟨by decide, by decide⟩ trivial rfl
    have high := both.step (.wait 1 false) ⟨by decide, by decide⟩ trivial rfl
    have low := high.step (.wait 2 true) ⟨by decide, by decide⟩ trivial rfl
    have signalled := low.step (.waitIrq 2 false) trivial trivial rfl
    exact ⟨_, signalled, rfl, ⟨by decide, rfl⟩, rfl, rfl⟩
  have first : Run (fun _ _ => True) (threeTasks 10 20 30) := .init _
  have one := first.step (.wait 0 false) ⟨by decide, by decide⟩ trivial rfl
  have two := one.step (.wait 1 true) ⟨by decide, by decide⟩ trivial rfl
  have middle := two.step (.wait 1 false) ⟨by decide, by decide⟩ trivial rfl
  have high := middle.step (.wait 2 true) ⟨by decide, by decide⟩ trivial rfl
  exact ⟨_, high, rfl, ⟨by decide, rfl⟩, rfl, rfl⟩

end NuttxRtos.Semaphore.Inheritance
