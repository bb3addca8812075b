import NuttxRtos.Pthread.MutexLists

/-!
# Runs of mutex calls

Every call keeps the lists of held mutexes exact, and an exit releases what the thread held.
-/

namespace NuttxRtos.Pthread

open List

open Function (update update_eq_self update_idem update_self)

open Chain

open State

variable {α μ : Type} {dying : Option α} {st : State α μ} {depth : α → μ → ℕ} {t : α} {m : μ}

theorem depth_of_nobody (nobody : ∀ u, ¬ Owns st.status depth u m) (u : α) : depth u m = 0 := by
  have := nobody u
  unfold Owns at this
  omega

theorem Inv.holder (inv : Inv none ⟨st, depth⟩) (running : st.status t = .running)
    (holder : (st.mutex m).pid = some t) : 0 < depth t m := by
  cases (inv.locks m).pid t holder with
  | inl held => exact held
  | inr rest =>
    cases rest with
    | inl dead =>
      simp only [running] at dead
      cases dead
    | inr dies => cases dies

theorem Inv.pass {dying dying' : Option α} (inv : Inv dying ⟨st, depth⟩)
    (left : ∀ u, dying = some u → st.status u = .exited ∨ dying' = some u) :
    Inv dying' ⟨st, depth⟩ := by
  refine ⟨inv.lists, fun k => { inv.locks k with pid := fun u holder => ?_ }⟩
  exact ((inv.locks k).pid u holder).imp_right fun rest => rest.elim .inl (left u)

/-- Fresh mutexes of any kind, and threads that hold nothing. -/
def initial (robust : μ → Bool) (type : μ → MutexType) : System α μ where
  st := {
    mutex := fun m => pthreadMutexInit (robust m) (type m)
    flink := fun _ => none
    mhead := fun _ => none
    status := fun _ => .running }
  depth := fun _ _ => 0

theorem initial_inv (robust : μ → Bool) (type : μ → MutexType) :
    Inv none (initial robust type : System α μ) := by
  constructor
  · exact ⟨fun t => ⟨[], rfl, by simp [initial]⟩, fun m _ => rfl⟩
  · intro m
    constructor <;> simp [initial, pthreadMutexInit]

section

variable [DecidableEq μ]

theorem Inv.mark (inv : Inv dying ⟨st, depth⟩) (m : μ) :
    Inv dying ⟨st.setMutex m { st.mutex m with inconsistent := true }, depth⟩ := by
  have at_m := inv.locks m
  exact inv.setMutex { at_m with }

theorem Inv.take (inv : Inv dying ⟨st, depth⟩) (available : 0 < (st.mutex m).semcount) :
    Inv dying ⟨st.setMutex m { st.mutex m with semcount := (st.mutex m).semcount - 1 }, depth⟩ ∧
      (∀ u, ¬ Owns st.status depth u m) ∧
      (st.mutex m).semcount - 1 + (st.mutex m).waiting.length ≤ 0 := by
  have at_m := inv.locks m
  have nobody := at_m.nobody available
  have sum := at_m.count
  simp only at sum
  refine ⟨inv.setMutex { at_m with
    count := ?_, idle := ?_, owned := fun u owns => absurd owns (nobody u) }, nobody, by omega⟩
  · simp only
    omega
  intro _
  simp only
  omega

end

variable [DecidableEq α] [DecidableEq μ]

/-! ## Locking -/

theorem locked_ok (free : depth t m = 0) : locked depth t m .ok = setDepth depth t m 1 := by
  rw [locked, free]

theorem lockTaken_inv (inv : Inv none ⟨st, depth⟩) (nobody : ∀ u, ¬ Owns st.status depth u m)
    (taken : (st.mutex m).semcount + (st.mutex m).waiting.length ≤ 0)
    (alive : st.status t ≠ .exited) :
    Inv none ⟨(lockTaken st t m).2, locked depth t m (lockTaken st t m).1⟩ := by
  unfold lockTaken
  simp only
  split
  · exact inv
  · simp only [locked_ok (depth_of_nobody nobody t)]
    exact inv.lock nobody taken alive fun _ => rfl

section

variable (inv : Inv none ⟨st, depth⟩) (running : st.status t = .running)

include inv running

theorem Inv.wait (unavailable : (st.mutex m).semcount ≤ 0) :
    Inv none ⟨(st.setMutex m { st.mutex m with
      semcount := (st.mutex m).semcount - 1
      waiting := (st.mutex m).waiting ++ [t] }).setStatus t (.waiting m), depth⟩ := by
  refine inv.setStatus m ?_ ?_ ?_ ?_ ?_ ?_ ((inv.locks m).block running unavailable)
  · simp [running]
  · simp [running]
  · simp [running]
  · intro k other
    simpa using Ne.symm other
  · simp
  · simp

theorem pthreadMutexTake_inv :
    Inv none ⟨(pthreadMutexTake st t m).2, locked depth t m (pthreadMutexTake st t m).1⟩ := by
  unfold pthreadMutexTake
  simp only
  split
  · exact inv
  split
  · rename_i available
    obtain ⟨inv_next, nobody, sum⟩ := inv.take available
    apply lockTaken_inv inv_next nobody
    · rw [setMutex_self]
      exact sum
    · rw [setMutex_status, running]
      simp
  · rename_i unavailable
    exact inv.wait running (by omega)

end

theorem Inv.relock (inv : Inv dying ⟨st, depth⟩) (owner : 0 < depth t m)
    (recursive : (st.mutex m).type = .recursive) {n : ℕ} (positive : 0 < n) :
    Inv dying ⟨st.setMutex m { st.mutex m with nlocks := n }, setDepth depth t m n⟩ := by
  refine inv.replace m ⟨?_, ?_⟩ rfl (fun k other => setMutex_other other)
    (fun k u other => setDepth_other fun both => other both.2) ?_
  · intro u
    obtain ⟨l, path, held⟩ := inv.lists.exact u
    refine ⟨l, path, ?_⟩
    intro k
    rw [held k, setDepth_eq]
    split
    · rename_i same
      rw [same.1, same.2]
      simp [owner, positive]
    · rfl
  · intro k free
    apply inv.lists.loose
    intro u
    have := free u
    rw [setDepth_eq] at this
    split at this
    · omega
    · exact this
  · rw [column_setDepth, setMutex_self]
    exact (inv.locks m).relock owner recursive positive

section

variable (inv : Inv none ⟨st, depth⟩) (running : st.status t = .running)

include inv running

theorem lockAgain_inv (recursive : (st.mutex m).type = .recursive)
    (holder : (st.mutex m).pid = some t) :
    Inv none ⟨(lockAgain st m).2, locked depth t m (lockAgain st m).1⟩ := by
  have owner := inv.holder running holder
  have nested := (inv.locks m).nested t owner recursive
  simp only at nested
  unfold lockAgain
  simp only
  split
  · simp only [locked, ← nested]
    exact inv.relock owner recursive (Nat.succ_pos _)
  · exact inv

theorem pthreadMutexTimedlock_inv :
    Inv none ⟨(pthreadMutexTimedlock st t m).2,
      locked depth t m (pthreadMutexTimedlock st t m).1⟩ := by
  unfold pthreadMutexTimedlock
  simp only
  split
  · rename_i held
    split
    · rename_i recursive
      exact lockAgain_inv inv running recursive held.2
    · exact inv
  split
  · exact inv.mark m
  · exact pthreadMutexTake_inv inv running

theorem pthreadMutexTrylock_inv :
    Inv none ⟨(pthreadMutexTrylock st t m).2, locked depth t m (pthreadMutexTrylock st t m).1⟩ := by
  unfold pthreadMutexTrylock
  simp only
  split
  · exact inv
  split
  · rename_i available
    obtain ⟨inv_next, nobody, sum⟩ := inv.take available
    simp only [locked_ok (depth_of_nobody nobody t)]
    apply inv_next.lock nobody
    · rw [setMutex_self]
      exact sum
    · rw [setMutex_status, running]
      simp
    · rw [setMutex_self]
      exact fun recursive => if_pos recursive
  split
  · rename_i held
    exact lockAgain_inv inv running held.1 held.2
  split
  · exact inv.mark m
  · exact inv

end

/-! ## Unlocking -/

section Unlock

variable [Fintype μ]

section

variable (inv : Inv none ⟨st, depth⟩) (pick : μ → ℕ)

include inv pick

theorem pthreadMutexGive_inv (owner : 0 < depth t m) :
    ∃ st', pthreadMutexGive pick (st.setMutex m { st.mutex m with pid := none, nlocks := 0 }) t m =
        some st' ∧ Inv none ⟨st', setDepth depth t m 0⟩ := by
  obtain ⟨prev, found, lists⟩ := inv.lists.remove inv.exclusive owner
  obtain ⟨released, nobody, sum⟩ := (inv.locks m).release owner
    { st.mutex m with pid := none, nlocks := 0 } rfl rfl nofun
  rw [← column_setDepth] at released
  simp only [← congrFun column_setDepth] at nobody
  have removed : pthreadMutexRemove
      (st.setMutex m { st.mutex m with pid := none, nlocks := 0 }) t m =
      some { st.setMutex m { st.mutex m with pid := none, nlocks := 0 } with
        flink := unlinkNext st.flink m prev
        mhead := update st.mhead t (unlinkHead st.flink (st.mhead t) m prev) } := by
    rw [pthreadMutexRemove, setMutex_flink, setMutex_mhead, found]
    rfl
  have inv_removed : Inv none ⟨{ st.setMutex m { st.mutex m with pid := none, nlocks := 0 } with
        flink := unlinkNext st.flink m prev
        mhead := update st.mhead t (unlinkHead st.flink (st.mhead t) m prev) },
      setDepth depth t m 0⟩ := by
    refine inv.replace m lists rfl (fun k other => setMutex_other other)
      (fun k u other => setDepth_other fun both => other both.2) ?_
    simp only [setMutex_self]
    exact released
  refine ⟨_, by rw [pthreadMutexGive, removed]; rfl, inv_removed.post pick nobody ?_⟩
  simp only [setMutex_self]
  exact sum

theorem pthreadMutexGive_nobody (nobody : ∀ u, ¬ Owns st.status depth u m)
    (unavailable : (st.mutex m).semcount < 1) :
    ∃ st', pthreadMutexGive pick (st.setMutex m { st.mutex m with pid := none, nlocks := 0 }) t m =
        some st' ∧ Inv none ⟨st', depth⟩ := by
  have free := depth_of_nobody nobody
  obtain ⟨prev, found, links, heads⟩ := inv.lists.remove_nothing (t := t) free
  have at_m := inv.locks m
  have sum : (st.mutex m).semcount + (st.mutex m).waiting.length ≤ 0 := by
    by_cases empty : (st.mutex m).waiting = []
    · rw [empty, length_nil]
      omega
    · exact at_m.idle empty
  have inv_next : Inv none ⟨st.setMutex m { st.mutex m with pid := none, nlocks := 0 }, depth⟩ :=
    inv.setMutex { at_m with
        pid := nofun
        nested := fun u held => absurd (free u) (held.ne') }
  have removed : pthreadMutexRemove
      (st.setMutex m { st.mutex m with pid := none, nlocks := 0 }) t m =
      some (st.setMutex m { st.mutex m with pid := none, nlocks := 0 }) := by
    rw [pthreadMutexRemove, setMutex_flink, setMutex_mhead, found]
    simp only [Option.bind_eq_bind, Option.bind_some, links, heads]
    rfl
  refine ⟨_, by rw [pthreadMutexGive, removed]; rfl, inv_next.post pick nobody ?_⟩
  rw [setMutex_self]
  exact sum

theorem pthreadMutexUnlock_inv (running : st.status t = .running)
    (proper : Proper ⟨st, depth⟩ (.unlock t m pick)) :
    ∃ result st', pthreadMutexUnlock pick st t m = some (result, st') ∧
      Inv none ⟨st', unlocked depth t m result⟩ := by
  unfold pthreadMutexUnlock
  simp only
  split
  · rename_i islocked
    split
    · exact ⟨_, _, rfl, inv⟩
    rename_i admitted
    split
    · rename_i nested
      -- One of several locks of a recursive mutex: the caller is its holder.
      have holder : (st.mutex m).pid = some t := by
        by_contra other
        exact admitted ⟨by simp [errcheck, nested.1], other⟩
      have owner := inv.holder running holder
      have depth_eq := (inv.locks m).nested t owner nested.1
      simp only at depth_eq
      refine ⟨_, _, rfl, ?_⟩
      rw [unlocked, if_pos owner, ← depth_eq]
      exact inv.relock owner nested.1 (by omega)
    rename_i outermost
    by_cases owner : 0 < depth t m
    · obtain ⟨st', given, inv_next⟩ := pthreadMutexGive_inv inv pick owner
      have last : depth t m - 1 = 0 := by
        by_cases recursive : (st.mutex m).type = .recursive
        · have := (inv.locks m).nested t owner recursive
          simp only at this
          have : ¬ 1 < (st.mutex m).nlocks := fun more => outermost ⟨recursive, more⟩
          omega
        have := (inv.locks m).once t owner recursive
        simp only at this
        omega
      refine ⟨.ok, st', by rw [given]; rfl, ?_⟩
      rw [unlocked, if_pos owner, last]
      exact inv_next
    have other : (st.mutex m).pid ≠ some t := fun holder => owner (inv.holder running holder)
    have unchecked : errcheck (st.mutex m) = false := by
      cases check : errcheck (st.mutex m) with
      | false => rfl
      | true => exact absurd ⟨check, other⟩ admitted
    have nobody := (proper islocked unchecked).resolve_left owner
    obtain ⟨st', given, inv_next⟩ := pthreadMutexGive_nobody inv pick nobody islocked
    have same : (fun u => update (depth u) m 0) = depth := by
      funext u
      rw [← depth_of_nobody nobody u, update_eq_self]
    refine ⟨.ok, st', by rw [given]; rfl, ?_⟩
    rw [unlocked, if_neg owner, same]
    exact inv_next
  · exact ⟨_, _, rfl, inv⟩

end

end Unlock

/-! ## Exiting -/

section Exit

/-- A mutex of the dying thread is taken off its list, marked, and its semaphore is released. -/
theorem inconsistentBody_inv (inv : Inv (some t) ⟨st, depth⟩) (pick : μ → ℕ) {l : List μ}
    (path : Path st.flink (st.mhead t) (m :: l)) (held : ∀ k, k ∈ m :: l ↔ 0 < depth t k) :
    Inv (some t) ⟨inconsistentBody pick t st m, setDepth depth t m 0⟩ ∧
      Path (inconsistentBody pick t st m).flink ((inconsistentBody pick t st m).mhead t) l := by
  have owner : 0 < depth t m := (held m).1 mem_cons_self
  have dies : ∀ u, (st.mutex m).pid = some u → st.status u = .exited ∨ some t = some u := by
    intro u holder
    cases (inv.locks m).pid u holder with
    | inl locks => exact .inr (congrArg some (inv.exclusive t u m owner locks))
    | inr rest => exact rest
  obtain ⟨released, nobody, sum⟩ := (inv.locks m).release owner
    { st.mutex m with inconsistent := true } rfl rfl dies
  rw [← column_setDepth] at released
  simp only [← congrFun column_setDepth] at nobody
  have front : Path st.flink (st.mhead t) ([] ++ m :: l) := path
  have lists := inv.lists.unlink inv.exclusive front held
  constructor
  · refine Inv.post ?_ pick nobody ?_
    · refine inv.replace m lists rfl (fun k other => setMutex_other other)
        (fun k u other => setDepth_other fun both => other both.2) ?_
      rw [setMutex_self]
      exact released
    · rw [setMutex_self]
      exact sum
  have rest := front.unlink
  rw [inconsistentBody, (semPost_lists ..).1, (semPost_lists ..).2]
  simp only [setMutex_flink, setMutex_mhead, update_self]
  exact rest

theorem inconsistentBody_mutex (pick : μ → ℕ) (st : State α μ) (t : α) (m : μ) :
    ((inconsistentBody pick t st m).mutex m).semcount = (st.mutex m).semcount + 1 ∧
      ((inconsistentBody pick t st m).mutex m).inconsistent = true ∧
      ∀ k, k ≠ m → (inconsistentBody pick t st m).mutex k = st.mutex k := by
  obtain ⟨count, flag, others⟩ := semPost_mutex pick
    ({ st with
      mhead := update st.mhead t (st.flink m)
      flink := update st.flink m none }.setMutex m
        { st.mutex m with inconsistent := true }) m
  rw [setMutex_self] at count flag
  refine ⟨count, flag, fun k other => ?_⟩
  rw [inconsistentBody, others k other, setMutex_other other]

theorem inconsistentLoop_spec (pick : μ → ℕ) {l : List μ} {fuel : ℕ}
    (inv : Inv (some t) ⟨st, depth⟩) (path : Path st.flink (st.mhead t) l)
    (held : ∀ k, k ∈ l ↔ 0 < depth t k) (enough : l.length < fuel) :
    ∃ st', inconsistentLoop pick t fuel st = some st' ∧
      Inv (some t) ⟨st', update depth t fun _ => 0⟩ ∧
      (∀ k ∈ l, (st'.mutex k).semcount = (st.mutex k).semcount + 1 ∧
        (st'.mutex k).inconsistent = true) ∧ ∀ k, k ∉ l → st'.mutex k = st.mutex k := by
  induction l generalizing st depth fuel with
  | nil =>
    obtain ⟨fuel, rfl⟩ : ∃ n, fuel = n + 1 := ⟨fuel - 1, by simp at enough; omega⟩
    have none_held : (fun _ => 0) = depth t := by
      funext k
      have := held k
      simp only [not_mem_nil, false_iff] at this
      omega
    refine ⟨st, ?_, ?_, by simp, fun _ _ => rfl⟩
    · rw [inconsistentLoop, show st.mhead t = none from path]
    · rw [none_held, update_eq_self]
      exact inv
  | cons m l ih =>
    obtain ⟨fuel, rfl⟩ : ∃ n, fuel = n + 1 := ⟨fuel - 1, by simp at enough; omega⟩
    obtain ⟨inv_next, path_next⟩ := inconsistentBody_inv inv pick path held
    obtain ⟨count, flag, others⟩ := inconsistentBody_mutex pick st t m
    have missing : m ∉ l := (nodup_cons.1 path.nodup).1
    have held_next : ∀ k, k ∈ l ↔ 0 < setDepth depth t m 0 t k := by
      intro k
      rw [setDepth_eq]
      by_cases same : k = m
      · subst same
        simp [missing]
      · rw [if_neg fun both => same both.2, ← held k, mem_cons]
        simp [same]
    obtain ⟨st', result, inv_last, marked, kept⟩ :=
      ih inv_next path_next held_next (by simpa using enough)
    refine ⟨st', ?_, ?_, ?_, ?_⟩
    · rw [inconsistentLoop, path.1]
      exact result
    · rwa [setDepth, update_idem] at inv_last
    · intro k hk
      by_cases same : k = m
      · subst same
        rw [kept k missing]
        exact ⟨count, flag⟩
      have inside := (mem_cons.1 hk).resolve_left same
      rw [← others k same]
      exact marked k inside
    intro k outside
    rw [mem_cons, not_or] at outside
    rw [kept k outside.2, others k outside.1]

theorem terminate_inv (inv : Inv (some t) ⟨st, depth⟩) (nothing : ∀ k, depth t k = 0) :
    Inv none ⟨terminate st t, depth⟩ := by
  have status : (terminate st t).status t = .exited := by
    unfold terminate
    split <;> simp [State.setStatus]
  refine Inv.pass (?_ : Inv (some t) _) (by rintro _ ⟨⟩; exact .inl status)
  unfold terminate
  cases now : st.status t with
  | running =>
    refine ⟨inv.lists, fun k => ?_⟩
    exact (inv.locks k).setStatus (by simp [now]) (by simp [now]) (by simp [now]) (by simp)
      (by simp) fun _ => nothing k
  | exited =>
    have same : st.setStatus t .exited = st := by
      rw [State.setStatus, ← now, update_eq_self]
    simp only [same]
    exact inv
  | waiting m =>
    refine inv.setStatus m ?_ ?_ ?_ ?_ ?_ (fun _ => nothing)
      ((inv.locks m).leave now (by simp) (by simp) (fun _ => nothing m) (Int.le_add_one le_rfl))
    · intro k other
      simpa [now] using Ne.symm other
    · simp [now]
    · simp [now]
    · simp
    · simp
  | woken m =>
    refine ⟨inv.lists, fun k => ?_⟩
    by_cases same : k = m
    · subst same
      exact ((inv.locks k).unwake now (by simp) (by simp)).1
    · exact (inv.locks k).setStatus (by simp [now]) (by simpa [now] using Ne.symm same)
        (by simp [now]) (by simp) (by simp) fun _ => nothing k

variable [Fintype μ]

/-- What `pthread_mutex_inconsistent` does for a thread: every mutex that it had locked is marked
and released once, and no other mutex changes. -/
theorem pthreadMutexInconsistent_spec (inv : Inv none ⟨st, depth⟩) (pick : μ → ℕ) (t : α) :
    ∃ st', pthreadMutexInconsistent pick st t = some st' ∧
      Inv (some t) ⟨st', update depth t fun _ => 0⟩ ∧
      (∀ k, 0 < depth t k → (st'.mutex k).semcount = (st.mutex k).semcount + 1 ∧
        (st'.mutex k).inconsistent = true) ∧ ∀ k, depth t k = 0 → st'.mutex k = st.mutex k := by
  obtain ⟨l, path, held⟩ := inv.lists.exact t
  have short := path.nodup.length_le_card
  have dying : Inv (some t) ⟨st, depth⟩ := inv.pass nofun
  obtain ⟨st', result, inv_next, marked, kept⟩ :=
    inconsistentLoop_spec pick dying path held (Nat.lt_succ_of_le short)
  refine ⟨st', result, inv_next, fun k locks => marked k ((held k).2 locks), fun k free => ?_⟩
  apply kept
  intro inside
  have := (held k).1 inside
  simp only at this
  omega

end Exit

/-! ## Runs -/

section Runs

variable [Fintype μ] {s s' : System α μ} {op : Op α μ}

inductive Run (condition : System α μ → Op α μ → Prop) : System α μ → Prop where
  | init (robust : μ → Bool) (type : μ → MutexType) : Run condition (initial robust type)
  | step {s s' : System α μ} {result : Result} (before : Run condition s) (op : Op α μ)
      (valid : Valid s op) (meets : condition s op) (returns : step s op = some (result, s')) :
      Run condition s'

theorem exit_spec (inv : Inv none s) (pick : μ → ℕ) (t : α) :
    ∃ st', pthreadMutexInconsistent pick s.st t = some st' ∧ step s (.exit t pick) =
        some (.ok, ⟨terminate st' t, update s.depth t fun _ => 0⟩) ∧
      Inv none ⟨terminate st' t, update s.depth t fun _ => 0⟩ ∧
      (∀ m, 0 < s.depth t m → (st'.mutex m).semcount = (s.st.mutex m).semcount + 1 ∧
        (st'.mutex m).inconsistent = true) ∧ ∀ m, s.depth t m = 0 → st'.mutex m = s.st.mutex m := by
  obtain ⟨st', result, inv_next, marked, kept⟩ := pthreadMutexInconsistent_spec inv pick t
  refine ⟨st', result, ?_, terminate_inv inv_next (by simp), marked, kept⟩
  rw [step, pthreadExit, result]
  rfl

theorem step_inv (inv : Inv none s) (valid : Valid s op) (proper : Proper s op) :
    ∃ result s', step s op = some (result, s') ∧ Inv none s' := by
  cases op with
  | lock t m => exact ⟨_, _, rfl, pthreadMutexTimedlock_inv inv valid⟩
  | trylock t m => exact ⟨_, _, rfl, pthreadMutexTrylock_inv inv valid⟩
  | unlock t m pick =>
    obtain ⟨result, st', returns, inv_next⟩ := pthreadMutexUnlock_inv inv pick valid proper
    exact ⟨result, _, by rw [step, returns]; rfl, inv_next⟩
  | resume t =>
    obtain ⟨m, woken⟩ := valid
    obtain ⟨at_m, nobody, taken⟩ :=
      (inv.locks m).unwake woken (show Status.running ≠ .waiting m by simp) (by simp)
    have inv_next : Inv none ⟨s.st.setStatus t .running, s.depth⟩ := by
      refine ⟨inv.lists, fun k => ?_⟩
      by_cases same : k = m
      · subst same
        exact at_m
      · exact (inv.locks k).setStatus (by simp [woken]) (by simpa [woken] using Ne.symm same)
          (by simp [woken]) (by simp) (by simp) (by simp)
    refine ⟨_, _, by rw [step, woken], lockTaken_inv inv_next nobody taken ?_⟩
    simp [State.setStatus]
  | abort t =>
    obtain ⟨m, waiting⟩ := valid
    refine ⟨_, _, by rw [step, waiting], ?_⟩
    refine inv.setStatus m ?_ ?_ ?_ ?_ ?_ ?_
      ((inv.locks m).leave waiting (by simp) (by simp) (by simp) le_rfl)
    · intro k other
      simpa [waiting] using Ne.symm other
    · simp [waiting]
    · simp [waiting]
    · simp
    · simp
    · simp
  | exit t pick =>
    obtain ⟨st', _, returns, inv_next, _⟩ := exit_spec inv pick t
    exact ⟨_, _, returns, inv_next⟩

theorem Run.inv (run : Run Proper s) : Inv none s := by
  induction run with
  | init robust type => exact initial_inv robust type
  | step _ op valid proper returns ih =>
    obtain ⟨result, s', returned, inv_next⟩ := step_inv ih valid proper
    rw [returns] at returned
    cases returned
    exact inv_next

/-- In every run in which a NORMAL mutex that is not robust is unlocked by its owner: every list is
free of cycles and holds exactly what its thread has locked, no mutex is on two lists, every
operation returns, and the exit of a thread marks and releases each mutex that it held once. -/
theorem run_mutexLists (run : Run Proper s) :
    (∀ t, ∃ l, Path s.st.flink (s.st.mhead t) l ∧ l.Nodup ∧ ∀ m, m ∈ l ↔ 0 < s.depth t m) ∧
    (∀ t u l k, Path s.st.flink (s.st.mhead t) l → Path s.st.flink (s.st.mhead u) k →
      ∀ m, m ∈ l → m ∈ k → t = u) ∧
    (∀ op, Valid s op → Proper s op → ∃ result s', step s op = some (result, s')) ∧
    ∀ t pick, ∃ st', pthreadMutexInconsistent pick s.st t = some st' ∧ step s (.exit t pick) =
        some (.ok, ⟨terminate st' t, update s.depth t fun _ => 0⟩) ∧
      (∀ m, 0 < s.depth t m → (st'.mutex m).semcount = (s.st.mutex m).semcount + 1 ∧
        (st'.mutex m).inconsistent = true) ∧ ∀ m, s.depth t m = 0 → st'.mutex m = s.st.mutex m := by
  have inv := run.inv
  refine ⟨?_, ?_, ?_, ?_⟩
  · intro t
    obtain ⟨l, path, held⟩ := inv.lists.exact t
    exact ⟨l, path, path.nodup, held⟩
  · intro t u l k path_t path_u m in_t in_u
    obtain ⟨l', path_t', held_t⟩ := inv.lists.exact t
    obtain ⟨k', path_u', held_u⟩ := inv.lists.exact u
    rw [path_t.unique path_t'] at in_t
    rw [path_u.unique path_u'] at in_u
    exact inv.exclusive t u m ((held_t m).1 in_t) ((held_u m).1 in_u)
  · intro op valid proper
    obtain ⟨result, s', returns, _⟩ := step_inv inv valid proper
    exact ⟨result, s', returns⟩
  intro t pick
  obtain ⟨st', result, returns, _, marked, kept⟩ := exit_spec inv pick t
  exact ⟨st', result, returns, marked, kept⟩

end Runs

def twoMutexes (type : MutexType) : System (Fin 2) (Fin 2) :=
  initial (fun _ => false) fun _ => type

/-- A thread that holds two mutexes, one of them twice. -/
theorem run_mutexLists_nested :
    ∃ s : System (Fin 2) (Fin 2), Run Proper s ∧ s.depth 0 0 = 2 ∧ s.depth 0 1 = 1 ∧
      ∃ l, Path s.st.flink (s.st.mhead 0) l ∧ l.Nodup ∧ ∀ m, m ∈ l ↔ 0 < s.depth 0 m := by
  have first : Run Proper (twoMutexes .recursive) := .init _ _
  have second := first.step (.lock 0 0) rfl trivial rfl
  have third := second.step (.lock 0 1) rfl trivial rfl
  have fourth := third.step (.trylock 0 0) rfl trivial rfl
  exact ⟨_, fourth, by decide, by decide, (run_mutexLists fourth).1 0⟩

/-- A thread that holds nothing unlocks the first mutex of another thread's list: it gets the rest
of that list, and the other thread keeps the unlocked mutex. -/
theorem unlock_moves_list :
    ∃ s : System (Fin 2) (Fin 2), Run (fun _ _ => True) s ∧
      Path s.st.flink (s.st.mhead 0) [0] ∧ Path s.st.flink (s.st.mhead 1) [1] ∧
      s.depth 0 0 = 0 ∧ s.depth 0 1 = 1 ∧ s.depth 1 1 = 0 := by
  have first : Run (fun _ _ => True) (twoMutexes .normal) := .init _ _
  have second := first.step (.lock 0 1) rfl trivial rfl
  have third := second.step (.lock 0 0) rfl trivial rfl
  have fourth := third.step (.unlock 1 0 fun _ => 0) rfl trivial rfl
  exact ⟨_, fourth, ⟨rfl, rfl⟩, ⟨rfl, rfl⟩, rfl, rfl, rfl⟩

end NuttxRtos.Pthread
