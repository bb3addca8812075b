import NuttxRtos.Pthread.MutexModel

/-!
# The lists of held mutexes

Every thread's list holds exactly the mutexes that it has locked and not unlocked, as long as a
mutex is unlocked by its holder: the code removes it from the list of the caller.
-/

namespace NuttxRtos.Pthread

open List

open Function (update update_eq_self update_of_ne update_self)

open Chain

variable {α μ : Type}

/-! ## Systems -/

/-- The mutexes and threads, and how often each thread has locked each mutex and not unlocked it, as
counted from the results of the calls. -/
structure System (α μ : Type) where
  st : State α μ
  depth : α → μ → ℕ

/-- Calls, and the two ends of a wait: the thread runs with the semaphore, or a signal or a timeout
ends it. -/
inductive Op (α μ : Type) where
  | lock (t : α) (m : μ)
  | trylock (t : α) (m : μ)
  | unlock (t : α) (m : μ) (pick : μ → ℕ)
  | resume (t : α)
  | abort (t : α)
  | exit (t : α) (pick : μ → ℕ)

section

variable [DecidableEq α] [DecidableEq μ]

/-- The depths after the thread has locked the mutex `n` times. -/
def setDepth (depth : α → μ → ℕ) (t : α) (m : μ) (n : ℕ) : α → μ → ℕ :=
  Function.update depth t (Function.update (depth t) m n)

/-- A lock counts when it succeeds. -/
def locked (depth : α → μ → ℕ) (t : α) (m : μ) : Result → α → μ → ℕ
  | .ok => setDepth depth t m (depth t m + 1)
  | _ => depth

/-- An unlock takes back one lock of the caller; without one it unlocks the mutex for everybody. -/
def unlocked (depth : α → μ → ℕ) (t : α) (m : μ) : Result → α → μ → ℕ
  | .ok => if 0 < depth t m then setDepth depth t m (depth t m - 1)
      else fun u => Function.update (depth u) m 0
  | _ => depth

def step [Fintype μ] (s : System α μ) : Op α μ → Option (Result × System α μ)
  | .lock t m =>
    let (result, st) := pthreadMutexTimedlock s.st t m
    some (result, ⟨st, locked s.depth t m result⟩)
  | .trylock t m =>
    let (result, st) := pthreadMutexTrylock s.st t m
    some (result, ⟨st, locked s.depth t m result⟩)
  | .unlock t m pick => do
      let (result, st) ← pthreadMutexUnlock pick s.st t m
      return (result, ⟨st, unlocked s.depth t m result⟩)
  | .resume t =>
    match s.st.status t with
    | .woken m =>
      let (result, st) := lockTaken (s.st.setStatus t .running) t m
      some (result, ⟨st, locked s.depth t m result⟩)
    | _ => none
  | .abort t =>
    match s.st.status t with
    | .waiting m => some (.interrupted, ⟨(semCancel s.st t m).setStatus t .running, s.depth⟩)
    | _ => none
  | .exit t pick => do
      let st ← pthreadExit pick s.st t
      return (.ok, ⟨st, Function.update s.depth t fun _ => 0⟩)

end

/-- A thread calls while it runs; a wait ends in one way or the other. -/
def Valid (s : System α μ) : Op α μ → Prop
  | .lock t _ => s.st.status t = .running
  | .trylock t _ => s.st.status t = .running
  | .unlock t _ _ => s.st.status t = .running
  | .resume t => ∃ m, s.st.status t = .woken m
  | .abort t => ∃ m, s.st.status t = .waiting m
  | .exit t _ => s.st.status t ≠ .exited

/-- The thread has locked the mutex, or it has been given its semaphore. -/
def Owns (status : α → Status μ) (depth : α → μ → ℕ) (t : α) (m : μ) : Prop :=
  0 < depth t m ∨ status t = .woken m

/-- An unlock that the code admits without asking for the holder comes from a thread that has the
mutex locked, or nobody has it. -/
def Proper (s : System α μ) : Op α μ → Prop
  | .unlock t m _ => (s.st.mutex m).semcount < 1 → errcheck (s.st.mutex m) = false →
      0 < s.depth t m ∨ ∀ u, ¬ Owns s.st.status s.depth u m
  | _ => True

/-! ## The invariant -/

/-- The lists are exact; a mutex on no list has no link. -/
structure Lists (flink : μ → Option μ) (mhead : α → Option μ) (depth : α → μ → ℕ) : Prop where
  exact : ∀ t, ∃ l, Path flink (mhead t) l ∧ ∀ m, m ∈ l ↔ 0 < depth t m
  loose : ∀ m, (∀ t, depth t m = 0) → flink m = none

/-- What a mutex and the threads say about each other; `depth` counts the locks of this mutex. The
thread `dying` is being deleted: its pid stays in the mutexes that it held. -/
structure MutexInv (dying : Option α) (status : α → Status μ) (m : μ) (mutex : Mutex α)
    (depth : α → ℕ) : Prop where
  excl : ∀ t u, 0 < depth t ∨ status t = .woken m → 0 < depth u ∨ status u = .woken m → t = u
  fresh : ∀ t, 0 < depth t → status t ≠ .woken m
  count : mutex.semcount + mutex.waiting.length ≤ 1
  idle : mutex.waiting ≠ [] → mutex.semcount + mutex.waiting.length ≤ 0
  owned : ∀ t, 0 < depth t ∨ status t = .woken m → mutex.semcount + mutex.waiting.length ≤ 0
  waits : ∀ t, t ∈ mutex.waiting ↔ status t = .waiting m
  nodup : mutex.waiting.Nodup
  pid : ∀ t, mutex.pid = some t → 0 < depth t ∨ status t = .exited ∨ dying = some t
  once : ∀ t, 0 < depth t → mutex.type ≠ .recursive → depth t = 1
  nested : ∀ t, 0 < depth t → mutex.type = .recursive → mutex.nlocks = depth t
  gone : ∀ t, status t = .exited → depth t = 0

structure Inv (dying : Option α) (s : System α μ) : Prop where
  lists : Lists s.st.flink s.st.mhead s.depth
  locks : ∀ m, MutexInv dying s.st.status m (s.st.mutex m) fun t => s.depth t m

section Depth

variable [DecidableEq α] [DecidableEq μ] {depth : α → μ → ℕ} {t u : α} {m k : μ} {n : ℕ}

@[simp] theorem setDepth_same : setDepth depth t m n t m = n := by
  simp [setDepth]

theorem setDepth_other (other : ¬ (u = t ∧ k = m)) : setDepth depth t m n u k = depth u k := by
  unfold setDepth
  by_cases thread : u = t
  · subst thread
    rw [update_self, update_of_ne fun same => other ⟨rfl, same⟩]
  · rw [update_of_ne thread]

theorem setDepth_eq : setDepth depth t m n u k = if u = t ∧ k = m then n else depth u k := by
  by_cases same : u = t ∧ k = m
  · rw [if_pos same, same.1, same.2, setDepth_same]
  · rw [if_neg same, setDepth_other same]

end Depth

/-! ## The lists -/

section Lists

variable [DecidableEq α] [DecidableEq μ] {flink : μ → Option μ} {mhead : α → Option μ}
  {depth : α → μ → ℕ} {t : α} {m : μ}

variable (lists : Lists flink mhead depth)
include lists

theorem Lists.add (nobody : ∀ u, depth u m = 0) :
    Lists (update flink m (mhead t)) (update mhead t (some m)) (setDepth depth t m 1) where
  exact u := by
    obtain ⟨l, path, held⟩ := lists.exact u
    have outside : ∀ k ∈ l, update flink m (mhead t) k = flink k := by
      intro k hk
      apply update_of_ne
      rintro rfl
      have := (held k).1 hk
      rw [nobody u] at this
      omega
    have path := path.congr outside
    by_cases same : u = t
    · subst same
      refine ⟨m :: l, ?_, ?_⟩
      · rw [update_self]
        exact path.cons (update_self ..)
      intro k
      rw [mem_cons, held k, setDepth_eq]
      by_cases this : k = m <;> simp [this]
    refine ⟨l, by rwa [update_of_ne same], ?_⟩
    intro k
    rw [held k, setDepth_other fun both => same both.1]
  loose k free := by
    have other : k ≠ m := by
      rintro rfl
      have := free t
      rw [setDepth_same] at this
      omega
    rw [update_of_ne other]
    apply lists.loose
    intro u
    have := free u
    rwa [setDepth_other fun both => other both.2] at this

def Exclusive (depth : α → μ → ℕ) : Prop := ∀ t u m, 0 < depth t m → 0 < depth u m → t = u

/-- The lists after a mutex of the list of `t` was unlinked behind `prev`, which is in that list. -/
theorem Lists.unlink (excl : Exclusive depth)
    {l₁ l₂ : List μ} (path : Path flink (mhead t) (l₁ ++ m :: l₂))
    (held : ∀ k, k ∈ l₁ ++ m :: l₂ ↔ 0 < depth t k) :
    Lists (unlinkNext flink m (lastOr none l₁))
      (update mhead t (unlinkHead flink (mhead t) m (lastOr none l₁))) (setDepth depth t m 0) := by
  have nodup := path.nodup
  have owner : 0 < depth t m := (held m).1 (by simp)
  have kept : ∀ k, k ≠ m → (∀ u, 0 < depth u k → u ≠ t) →
      unlinkNext flink m (lastOr none l₁) k = flink k := by
    intro k other elsewhere
    refine unlinkNext_other other fun last => ?_
    cases lastOr_mem last with
    | inl absurd_ => cases absurd_
    | inr inside => exact elsewhere t ((held k).1 (mem_append_left _ inside)) rfl
  constructor
  · intro u
    by_cases same : u = t
    · subst same
      refine ⟨l₁ ++ l₂, by rw [update_self]; exact path.unlink, ?_⟩
      intro k
      rw [setDepth_eq]
      by_cases this : k = m
      · subst this
        rw [nodup_append, nodup_cons] at nodup
        simp only [and_self, if_true, mem_append, lt_irrefl, iff_false, not_or]
        exact ⟨fun inside => nodup.2.2 k inside k mem_cons_self rfl, nodup.2.1.1⟩
      · rw [if_neg fun both => this both.2, ← held k]
        simp [this]
    obtain ⟨l, other_path, other_held⟩ := lists.exact u
    refine ⟨l, ?_, ?_⟩
    · rw [update_of_ne same]
      refine other_path.congr fun k hk => kept k ?_ ?_
      · rintro rfl
        exact same (excl u t k ((other_held k).1 hk) owner)
      intro v hv this
      subst this
      exact same (excl u v k ((other_held k).1 hk) hv)
    · intro k
      rw [other_held k, setDepth_other fun both => same both.1]
  intro k free
  by_cases this : k = m
  · subst this
    exact unlinkNext_self _
  have free : ∀ u, depth u k = 0 := by
    intro u
    rw [← free u, setDepth_other fun both => this both.2]
  rw [kept k this fun u hu => absurd (free u) (by omega)]
  exact lists.loose k free

theorem Lists.remove [Fintype μ] (excl : Exclusive depth) (owner : 0 < depth t m) :
    ∃ prev, findPrev flink m (Fintype.card μ + 1) none (mhead t) = some prev ∧
      Lists (unlinkNext flink m prev)
        (update mhead t (unlinkHead flink (mhead t) m prev)) (setDepth depth t m 0) := by
  obtain ⟨l, path, held⟩ := lists.exact t
  obtain ⟨l₁, l₂, rfl⟩ := append_of_mem ((held m).2 owner)
  have nodup := path.nodup
  have short := nodup.length_le_card
  have first : m ∉ l₁ := by
    intro again
    exact (nodup_append.1 nodup).2.2 m again m mem_cons_self rfl
  rw [length_append] at short
  exact ⟨lastOr none l₁, findPrev_of_mem path first (by omega), lists.unlink excl path held⟩

theorem Lists.remove_nothing [Fintype μ] (nobody : ∀ u, depth u m = 0) :
    ∃ prev, findPrev flink m (Fintype.card μ + 1) none (mhead t) = some prev ∧
      unlinkNext flink m prev = flink ∧
      update mhead t (unlinkHead flink (mhead t) m prev) = mhead := by
  obtain ⟨l, path, held⟩ := lists.exact t
  have missing : m ∉ l := by
    intro inside
    have := (held m).1 inside
    rw [nobody t] at this
    omega
  have short := path.nodup.length_le_card
  obtain ⟨links, head⟩ := path.unlink_nothing (lists.loose m nobody)
  refine ⟨_, findPrev_of_not_mem path missing (by omega), links, ?_⟩
  rw [head, update_eq_self]

end Lists

/-! ## Mutexes and threads -/

section MutexInv

variable {dying : Option α} {status : α → Status μ} {m : μ} {mutex : Mutex α}
  {depth : α → ℕ} {t : α}

theorem MutexInv.of_nobody (nobody : ∀ u, ¬ (0 < depth u ∨ status u = .woken m))
    (taken : mutex.semcount + mutex.waiting.length ≤ 0)
    (waits : ∀ t, t ∈ mutex.waiting ↔ status t = .waiting m) (nodup : mutex.waiting.Nodup)
    (pid : ∀ t, mutex.pid = some t → 0 < depth t ∨ status t = .exited ∨ dying = some t) :
    MutexInv dying status m mutex depth := by
  have none_held : ∀ u, ¬ 0 < depth u := fun u held => nobody u (.inl held)
  refine ⟨?_, ?_, by omega, fun _ => taken, fun _ _ => taken, waits, nodup, pid, ?_, ?_, ?_⟩
  · exact fun u _ owns => absurd owns (nobody u)
  · exact fun u held => absurd held (none_held u)
  · exact fun u held => absurd held (none_held u)
  · exact fun u held => absurd held (none_held u)
  · exact fun u _ => Nat.eq_zero_of_not_pos (none_held u)

theorem MutexInv.nobody (inv : MutexInv dying status m mutex depth)
    (available : 0 < mutex.semcount) (u : α) : ¬ (0 < depth u ∨ status u = .woken m) := by
  intro owner
  have := inv.owned u owner
  omega

theorem MutexInv.post (inv : MutexInv dying status m mutex depth)
    (nobody : ∀ u, ¬ (0 < depth u ∨ status u = .woken m))
    (taken : mutex.semcount + mutex.waiting.length ≤ 0) (empty : mutex.waiting = []) :
    MutexInv dying status m { mutex with semcount := mutex.semcount + 1 } depth where
  excl := inv.excl
  fresh := inv.fresh
  count := by
    simp only
    omega
  idle waiting := absurd empty waiting
  owned u owns := absurd owns (nobody u)
  waits := inv.waits
  nodup := inv.nodup
  pid := inv.pid
  once := inv.once
  nested := inv.nested
  gone := inv.gone

variable [DecidableEq α]

theorem update_eq_iff {β : Type} {f : α → β} {x v : β} (old : f t ≠ x) (new : v ≠ x) (u : α) :
    update f t v u = x ↔ f u = x := by
  by_cases same : u = t
  · subst same
    simp [old, new]
  · rw [update_of_ne same]

section

variable (inv : MutexInv dying status m mutex depth)
include inv

variable {new : Status μ}

theorem mem_erase_iff (other : new ≠ .waiting m) (u : α) :
    u ∈ mutex.waiting.erase t ↔ update status t new u = .waiting m := by
  rw [inv.nodup.mem_erase_iff, inv.waits u]
  by_cases same : u = t
  · subst same
    simp [other]
  · simp [same]

theorem pid_of_alive (alive : status t ≠ .exited) (u : α) (holder : mutex.pid = some u) :
    0 < depth u ∨ update status t new u = .exited ∨ dying = some u := by
  cases inv.pid u holder with
  | inl held => exact .inl held
  | inr rest =>
    cases rest with
    | inl dead =>
      have other : u ≠ t := by
        rintro rfl
        exact alive dead
      rw [update_of_ne other]
      exact .inr (.inl dead)
    | inr dies => exact .inr (.inr dies)

theorem gone_of_new (gone : new = .exited → depth t = 0) (u : α)
    (dead : update status t new u = .exited) : depth u = 0 := by
  by_cases same : u = t
  · subst same
    rw [update_self] at dead
    exact gone dead
  · rw [update_of_ne same] at dead
    exact inv.gone u dead

theorem MutexInv.setStatus (old_waiting : status t ≠ .waiting m) (old_woken : status t ≠ .woken m)
    (alive : status t ≠ .exited) (new_waiting : new ≠ .waiting m) (new_woken : new ≠ .woken m)
    (gone : new = .exited → depth t = 0) : MutexInv dying (update status t new) m mutex depth := by
  have woken := update_eq_iff old_woken new_woken
  refine ⟨?_, ?_, inv.count, inv.idle, ?_, ?_, inv.nodup, pid_of_alive inv alive, inv.once,
    inv.nested, gone_of_new inv gone⟩
  · intro u v
    rw [woken u, woken v]
    exact inv.excl u v
  · intro u held
    rw [ne_eq, woken u]
    exact inv.fresh u held
  · intro u
    rw [woken u]
    exact inv.owned u
  intro u
  rw [inv.waits u, update_eq_iff old_waiting new_waiting]

theorem MutexInv.release (owner : 0 < depth t)
    (new : Mutex α) (semcount : new.semcount = mutex.semcount)
    (waiting : new.waiting = mutex.waiting)
    (pid : ∀ u, new.pid = some u → status u = .exited ∨ dying = some u) :
    MutexInv dying status m new (update depth t 0) ∧
      (∀ u, ¬ (0 < update depth t 0 u ∨ status u = .woken m)) ∧
      new.semcount + new.waiting.length ≤ 0 := by
  have count := inv.owned t (.inl owner)
  have nobody : ∀ u, ¬ (0 < update depth t 0 u ∨ status u = .woken m) := by
    intro u owns
    by_cases same : u = t
    · subst same
      rw [update_self] at owns
      cases owns with
      | inl held => exact lt_irrefl 0 held
      | inr woken => exact inv.fresh u owner woken
    · rw [update_of_ne same] at owns
      exact same (inv.excl u t owns (.inl owner))
  rw [← semcount, ← waiting] at count
  refine ⟨.of_nobody nobody count ?_ ?_ fun u holder => .inr (pid u holder), nobody, count⟩
  · rw [waiting]
    exact inv.waits
  · rw [waiting]
    exact inv.nodup

section

variable (nobody : ∀ u, ¬ (0 < depth u ∨ status u = .woken m))
  (taken : mutex.semcount + mutex.waiting.length ≤ 0)
include nobody taken

theorem MutexInv.acquire (alive : status t ≠ .exited) {n : ℕ}
    (first : mutex.type = .recursive → n = 1) :
    MutexInv dying status m { mutex with pid := some t, nlocks := n }
      (update depth t 1) := by
  have owner : ∀ u, 0 < update depth t 1 u ∨ status u = .woken m → u = t := by
    intro u owns
    by_contra other
    rw [update_of_ne other] at owns
    exact nobody u owns
  have depth_t : ∀ u, 0 < update depth t 1 u → update depth t 1 u = 1 := by
    intro u held
    rw [owner u (.inl held), update_self]
  refine ⟨?_, ?_, inv.count, inv.idle, fun _ _ => taken, inv.waits, inv.nodup, ?_, ?_, ?_, ?_⟩
  · intro u v first second
    rw [owner u first, owner v second]
  · intro u held woken
    exact nobody u (.inr woken)
  · intro u holder
    cases holder
    rw [update_self]
    exact .inl one_pos
  · intro u held _
    exact depth_t u held
  · intro u held recursive
    rw [depth_t u held]
    exact first recursive
  intro u dead
  have other : u ≠ t := by
    rintro rfl
    exact alive dead
  rw [update_of_ne other]
  exact inv.gone u dead

theorem MutexInv.wake (waits : t ∈ mutex.waiting) : MutexInv dying (update status t (.woken m)) m
      { mutex with semcount := mutex.semcount + 1, waiting := mutex.waiting.erase t } depth := by
  have waiting := (inv.waits t).1 waits
  have length := length_erase_of_mem waits
  have nonempty := length_pos_of_mem waits
  have owner : ∀ u, 0 < depth u ∨ update status t (.woken m) u = .woken m → u = t := by
    intro u owns
    by_contra other
    rw [update_of_ne other] at owns
    exact nobody u owns
  have sum : mutex.semcount + 1 + (mutex.waiting.erase t).length ≤ 0 := by omega
  refine ⟨?_, ?_, by simp only; omega, fun _ => sum, fun _ _ => sum, mem_erase_iff inv (by simp),
    inv.nodup.erase t, pid_of_alive inv (by simp [waiting]), inv.once, inv.nested,
    gone_of_new inv (by simp)⟩
  · intro u v first second
    rw [owner u first, owner v second]
  · exact fun u held => absurd (.inl held) (nobody u)

end

theorem MutexInv.block (running : status t = .running) (unavailable : mutex.semcount ≤ 0) :
    MutexInv dying (update status t (.waiting m)) m
      { mutex with semcount := mutex.semcount - 1, waiting := mutex.waiting ++ [t] } depth := by
  have missing : t ∉ mutex.waiting := by
    rw [inv.waits t, running]
    simp
  have woken := update_eq_iff (show status t ≠ .woken m by simp [running])
    (show Status.waiting m ≠ .woken m by simp)
  have sum : mutex.semcount - 1 + (mutex.waiting ++ [t]).length ≤ 0 := by
    rw [length_append, length_singleton]
    by_cases empty : mutex.waiting = []
    · rw [empty, length_nil]
      omega
    · have := inv.idle empty
      omega
  refine ⟨?_, ?_, by simp only; omega, fun _ => sum, fun _ _ => sum, ?_, ?_,
    pid_of_alive inv (by simp [running]), inv.once, inv.nested, gone_of_new inv (by simp)⟩
  · intro u v
    rw [woken u, woken v]
    exact inv.excl u v
  · intro u held
    rw [ne_eq, woken u]
    exact inv.fresh u held
  · intro u
    rw [mem_append, inv.waits u, mem_singleton]
    by_cases same : u = t
    · subst same
      simp
    · simp [same]
  exact nodup_append.2 ⟨inv.nodup, nodup_singleton t, by
    intro a inside b hb same
    rw [mem_singleton] at hb
    subst hb same
    exact missing inside⟩

/-- The thread leaves the waiting ones; the count may be given back. -/
theorem MutexInv.leave (waiting : status t = .waiting m) (new_waiting : new ≠ .waiting m)
    (new_woken : new ≠ .woken m) (gone : new = .exited → depth t = 0) {n : ℤ}
    (atmost : n ≤ mutex.semcount + 1) :
    MutexInv dying (update status t new) m
      { mutex with semcount := n, waiting := mutex.waiting.erase t } depth := by
  have waits := (inv.waits t).2 waiting
  have length := length_erase_of_mem waits
  have nonempty := length_pos_of_mem waits
  have woken := update_eq_iff (show status t ≠ .woken m by simp [waiting]) new_woken
  have sum : n + (mutex.waiting.erase t).length ≤ 0 := by
    have := inv.idle (ne_nil_of_mem waits)
    omega
  refine ⟨?_, ?_, by simp only; omega, fun _ => sum, fun _ _ => sum, mem_erase_iff inv new_waiting,
    inv.nodup.erase t, pid_of_alive inv (by simp [waiting]), inv.once, inv.nested,
    gone_of_new inv gone⟩
  · intro u v
    rw [woken u, woken v]
    exact inv.excl u v
  intro u held
  rw [ne_eq, woken u]
  exact inv.fresh u held

theorem MutexInv.unwake (woken : status t = .woken m) (new_waiting : new ≠ .waiting m)
    (new_woken : new ≠ .woken m) :
    MutexInv dying (update status t new) m mutex depth ∧
      (∀ u, ¬ (0 < depth u ∨ update status t new u = .woken m)) ∧
      mutex.semcount + mutex.waiting.length ≤ 0 := by
  have count := inv.owned t (.inr woken)
  have nobody : ∀ u, ¬ (0 < depth u ∨ update status t new u = .woken m) := by
    intro u owns
    by_cases same : u = t
    · subst same
      rw [update_self] at owns
      cases owns with
      | inl held => exact inv.fresh u held woken
      | inr again => exact new_woken again
    · rw [update_of_ne same] at owns
      exact same (inv.excl u t owns (.inr woken))
  refine ⟨.of_nobody nobody count (fun u => ?_) inv.nodup (pid_of_alive inv (by simp [woken])),
    nobody, count⟩
  rw [inv.waits u, update_eq_iff (by simp [woken]) new_waiting]

theorem MutexInv.relock (owner : 0 < depth t)
    (recursive : mutex.type = .recursive) {n : ℕ} (positive : 0 < n) :
    MutexInv dying status m { mutex with nlocks := n } (update depth t n) := by
  have held : ∀ u, 0 < update depth t n u ↔ 0 < depth u := by
    intro u
    by_cases same : u = t
    · subst same
      simp [owner, positive]
    · rw [update_of_ne same]
  refine ⟨?_, ?_, inv.count, inv.idle, ?_, inv.waits, inv.nodup, ?_, ?_, ?_, ?_⟩
  · intro u v
    rw [held u, held v]
    exact inv.excl u v
  · intro u
    rw [held u]
    exact inv.fresh u
  · intro u
    rw [held u]
    exact inv.owned u
  · intro u
    rw [held u]
    exact inv.pid u
  · exact fun u _ other => absurd recursive other
  · intro u locks _
    rw [inv.excl u t (.inl ((held u).1 locks)) (.inl owner), update_self]
  intro u dead
  have other : u ≠ t := by
    rintro rfl
    have := inv.gone u dead
    omega
  rw [update_of_ne other]
  exact inv.gone u dead

end

end MutexInv

/-! ## Operations -/

section Operations

variable {dying : Option α} {st st' : State α μ} {depth depth' : α → μ → ℕ} {t : α} {m : μ}

theorem Inv.exclusive (inv : Inv dying ⟨st, depth⟩) : Exclusive depth :=
  fun t u m first second => (inv.locks m).excl t u (.inl first) (.inl second)

theorem Inv.replace (inv : Inv dying ⟨st, depth⟩) (m : μ)
    (lists : Lists st'.flink st'.mhead depth') (status : st'.status = st.status)
      (others : ∀ k, k ≠ m → st'.mutex k = st.mutex k)
    (columns : ∀ k u, k ≠ m → depth' u k = depth u k)
    (changed : MutexInv dying st.status m (st'.mutex m) fun u => depth' u m) :
    Inv dying ⟨st', depth'⟩ := by
  refine ⟨lists, ?_⟩
  intro k
  simp only [status]
  by_cases same : k = m
  · subst same
    exact changed
  · simp only [others k same, columns k _ same]
    exact inv.locks k

theorem Inv.setMutex [DecidableEq μ] (inv : Inv dying ⟨st, depth⟩) {new : Mutex α}
    (changed : MutexInv dying st.status m new fun u => depth u m) :
    Inv dying ⟨st.setMutex m new, depth⟩ := by
  refine inv.replace m inv.lists rfl (fun k other => State.setMutex_other other)
    (fun _ _ _ => rfl) ?_
  rw [State.setMutex_self]
  exact changed

variable [DecidableEq α] [DecidableEq μ]

/-- A step that concerns one mutex and the status of a thread, which has to do with no other. -/
theorem Inv.setStatus (inv : Inv dying ⟨st, depth⟩) (m : μ) {new : Mutex α} {status : Status μ}
    (old_waiting : ∀ k, k ≠ m → st.status t ≠ .waiting k)
    (old_woken : ∀ k, k ≠ m → st.status t ≠ .woken k) (alive : st.status t ≠ .exited)
    (new_waiting : ∀ k, k ≠ m → status ≠ .waiting k) (new_woken : ∀ k, k ≠ m → status ≠ .woken k)
    (gone : status = .exited → ∀ k, depth t k = 0)
    (changed : MutexInv dying (update st.status t status) m new fun u => depth u m) :
    Inv dying ⟨(st.setMutex m new).setStatus t status, depth⟩ := by
  refine ⟨inv.lists, ?_⟩
  intro k
  by_cases same : k = m
  · subst same
    rw [State.setStatus_mutex, State.setMutex_self]
    exact changed
  rw [State.setStatus_mutex, State.setMutex_other same]
  exact (inv.locks k).setStatus (old_waiting k same) (old_woken k same) alive
    (new_waiting k same) (new_woken k same) fun exited => gone exited k

theorem column_setDepth {n : ℕ} :
    (fun u => setDepth depth t m n u m) = update (fun u => depth u m) t n := by
  funext u
  rw [setDepth_eq]
  by_cases same : u = t
  · subst same
    simp
  · simp [same]

theorem Inv.lock (inv : Inv dying ⟨st, depth⟩) (nobody : ∀ u, ¬ Owns st.status depth u m)
    (taken : (st.mutex m).semcount + (st.mutex m).waiting.length ≤ 0)
    (alive : st.status t ≠ .exited) {n : ℕ} (first : (st.mutex m).type = .recursive → n = 1) :
    Inv dying ⟨(pthreadMutexAdd st t m).setMutex m
      { st.mutex m with pid := some t, nlocks := n }, setDepth depth t m 1⟩ := by
  have free : ∀ u, depth u m = 0 := by
    intro u
    have := nobody u
    unfold Owns at this
    omega
  refine inv.replace m (inv.lists.add free) rfl (fun k other => State.setMutex_other other)
    (fun k u other => setDepth_other fun both => other both.2) ?_
  rw [column_setDepth, State.setMutex_self]
  exact (inv.locks m).acquire nobody taken alive first

variable (pick : μ → ℕ)

/-- What `nxsem_post` does: it counts up, and it gives the semaphore to a thread that waits. -/
theorem semPost_cases (st : State α μ) (m : μ) :
    semPost pick st m = st.setMutex m { st.mutex m with semcount := (st.mutex m).semcount + 1 } ∧
      (0 < (st.mutex m).semcount + 1 ∨ (st.mutex m).waiting = []) ∨
    ∃ w ∈ (st.mutex m).waiting, semPost pick st m = (st.setMutex m { st.mutex m with
        semcount := (st.mutex m).semcount + 1
        waiting := (st.mutex m).waiting.erase w }).setStatus w (.woken m) := by
  unfold semPost
  simp only
  split
  · rename_i missing
    refine .inl ⟨rfl, ?_⟩
    split at missing
    · right
      rw [getElem?_eq_none_iff] at missing
      by_contra nonempty
      have := Nat.mod_lt (pick m) (length_pos_of_ne_nil nonempty)
      omega
    · left
      omega
  rename_i w found
  refine .inr ⟨w, ?_, rfl⟩
  split at found
  · exact mem_of_getElem? found
  · cases found

theorem semPost_lists (st : State α μ) (m : μ) :
    (semPost pick st m).flink = st.flink ∧ (semPost pick st m).mhead = st.mhead := by
  cases semPost_cases pick st m with
  | inl counted =>
    rw [counted.1]
    exact ⟨State.setMutex_flink, State.setMutex_mhead⟩
  | inr woke =>
    obtain ⟨w, _, given⟩ := woke
    rw [given, State.setStatus_flink, State.setStatus_mhead]
    exact ⟨State.setMutex_flink, State.setMutex_mhead⟩

/-- The semaphore is released once, and nothing else of any mutex changes but who waits. -/
theorem semPost_mutex (st : State α μ) (m : μ) :
    ((semPost pick st m).mutex m).semcount = (st.mutex m).semcount + 1 ∧
      ((semPost pick st m).mutex m).inconsistent = (st.mutex m).inconsistent ∧
      ∀ k, k ≠ m → (semPost pick st m).mutex k = st.mutex k := by
  cases semPost_cases pick st m with
  | inl counted =>
    rw [counted.1, State.setMutex_self]
    exact ⟨rfl, rfl, fun k other => State.setMutex_other other⟩
  | inr woke =>
    obtain ⟨w, _, given⟩ := woke
    rw [given, State.setStatus_mutex, State.setMutex_self]
    exact ⟨rfl, rfl, fun k other => State.setMutex_other other⟩

theorem Inv.post (inv : Inv dying ⟨st, depth⟩) (pick : μ → ℕ)
    (nobody : ∀ u, ¬ Owns st.status depth u m)
    (taken : (st.mutex m).semcount + (st.mutex m).waiting.length ≤ 0) :
    Inv dying ⟨semPost pick st m, depth⟩ := by
  cases semPost_cases pick st m with
  | inl counted =>
    have empty : (st.mutex m).waiting = [] := by
      by_contra nonempty
      have sum := (inv.locks m).idle nonempty
      have length := length_pos_of_ne_nil nonempty
      have high := counted.2.resolve_right nonempty
      omega
    rw [counted.1]
    exact inv.setMutex ((inv.locks m).post nobody taken empty)
  | inr woke =>
    obtain ⟨w, waits, given⟩ := woke
    have waiting := ((inv.locks m).waits w).1 waits
    simp only at waiting
    rw [given]
    refine inv.setStatus m ?_ ?_ ?_ ?_ ?_ ?_ ((inv.locks m).wake nobody taken waits)
    · intro k other
      simpa [waiting] using Ne.symm other
    · simp [waiting]
    · simp [waiting]
    · simp
    · intro k other
      simpa using Ne.symm other
    · simp

end Operations

end NuttxRtos.Pthread
