import NuttxRtos.Sporadic.Model

/-! The counters of sporadic scheduling over whole runs. -/

namespace NuttxRtos.Sporadic

open Word Option

section

variable {n : ℕ} {p : Params} {s s' : State n} {i : Fin n} {r : Replenishment}

/-- A replenishment of at most the budget, at most half a period from now. -/
def Bounded (p : Params) (amount delay : ℕ) : Prop :=
  1 ≤ amount ∧ amount ≤ p.budget ∧ delay ≤ p.replPeriod / 2

/-- The records: they are counted, a timer belongs to an allocated record, and every replenishment
that waits for its time is bounded. -/
structure Records (p : Params) (repls : Fin n → Replenishment) (nrepls : ℕ) : Prop where
  count : nrepls = (allocated repls).card
  count_le : nrepls ≤ p.maxRepl
  alloced : ∀ i, (repls i).timer ≠ none → (repls i).alloced = true
  delay : ∀ i d, (repls i).timer = some (.delayExpire, d) → Bounded p (repls i).budget d

/-- The invariant. With the `timeslice` at -1 all records are free. -/
structure Inv (p : Params) (s : State n) : Prop where
  records : Records p s.replenishments s.nrepls
  active : s.active ≠ none
  timeslice : s.timeslice = -1 ∨ 0 ≤ s.timeslice ∧ s.timeslice ≤ p.budget
  cancelled : s.timeslice < 0 → s.nrepls = 0

theorem toInt32_eq {x : ℕ} (small : x < 2 ^ 31) : toInt32 x = x := by
  unfold toInt32
  rw [Int.bmod_def]
  omega

theorem toUInt32_eq {x : ℤ} (low : 0 ≤ x) (high : x < 2 ^ 32) : (toUInt32 x : ℤ) = x := by
  unfold toUInt32
  omega

theorem Params.budget_lt (p : Params) : p.budget < 2 ^ 31 :=
  p.budget_le.trans_lt p.replPeriod_lt

theorem toInt32_budget (p : Params) : toInt32 p.budget = p.budget := toInt32_eq p.budget_lt

namespace Records

variable {repls : Fin n → Replenishment} {nrepls : ℕ}

variable (records : Records p repls nrepls)
include records

theorem set {count : ℕ} (counted : count = (if r.alloced then insert i (allocated repls) else
      (allocated repls).erase i).card) (count_le : count ≤ p.maxRepl)
    (timer : r.timer ≠ none → r.alloced = true)
    (delay : ∀ d, r.timer = some (.delayExpire, d) → Bounded p r.budget d) :
    Records p (Function.update repls i r) count where
  count := by
    rw [counted]
    congr 1
    ext j
    by_cases here : j = i
    · subst here
      cases same : r.alloced <;> simp [allocated, same]
    · cases r.alloced <;> simp [allocated, here]
  count_le := count_le
  alloced := by
    intro j
    by_cases here : j = i
    · subst here
      simpa using timer
    · simpa [here] using records.alloced j
  delay := by
    intro j
    by_cases here : j = i
    · subst here
      simpa using delay
    · simpa [here] using records.delay j

theorem update (same : r.alloced = (repls i).alloced) (timer : r.timer ≠ none → r.alloced = true)
    (delay : ∀ d, r.timer = some (.delayExpire, d) → Bounded p r.budget d) :
    Records p (Function.update repls i r) nrepls := by
  refine records.set ?_ records.count_le timer delay
  rw [records.count, same]
  split
  · next set => rw [Finset.insert_eq_of_mem (by simp [allocated, set])]
  · next clear => rw [Finset.erase_eq_of_notMem (by simp [allocated, clear])]

theorem alloc (room : nrepls < p.maxRepl)
    (free : (repls i).alloced = false) (set : r.alloced = true)
    (timer : r.timer = (repls i).timer) (budget : r.budget = (repls i).budget) :
    Records p (Function.update repls i r) (nrepls + 1) := by
  refine records.set ?_ room (fun _ => set) ?_
  · rw [if_pos set, Finset.card_insert_of_notMem (by simp [allocated, free]), records.count]
  · simpa [timer, budget] using records.delay i

theorem free (alloced : (repls i).alloced = true)
    (clear : r.alloced = false) (timer : r.timer = none) :
    Records p (Function.update repls i r) (nrepls - 1) := by
  refine records.set ?_ ((Nat.sub_le _ _).trans records.count_le) (by simp [timer]) (by simp [timer])
  rw [clear, if_neg nofun, Finset.card_erase_of_mem (by simp [allocated, alloced]), records.count]

end Records

theorem allocRepl_spec {s : State n} (found : allocRepl p s = some (i, s')) :
    s.nrepls < p.maxRepl ∧ (s.replenishments i).alloced = false ∧
      s' = { s.set i { s.replenishments i with
        alloced := true
        main := false
        replenish := false } with nrepls := s.nrepls + 1 } := by
  unfold allocRepl at found
  split at found
  case isFalse => cases found
  case isTrue room =>
    split at found
    · cases found
    rename_i j search
    cases found
    have free := List.find?_some search
    simp only [Bool.and_eq_true, decide_eq_true_eq, Bool.not_eq_true'] at free
    exact ⟨room, free.2, rfl⟩

section

variable (found : allocRepl p s = some (i, s')) (records : Records p s.replenishments s.nrepls)
include found records

theorem allocRepl_records : Records p s'.replenishments s'.nrepls := by
  obtain ⟨room, free, rfl⟩ := allocRepl_spec found
  exact records.alloc room free rfl rfl rfl

theorem allocRepl_new :
    (s'.replenishments i).alloced = true ∧ (s'.replenishments i).timer = none := by
  obtain ⟨_, free, rfl⟩ := allocRepl_spec found
  refine ⟨by simp [State.set], ?_⟩
  by_contra started
  have used := records.alloced i (by simpa [State.set] using started)
  simp [used] at free

end

theorem timerCancel_records (s : State n) :
    Records p (timerCancel s).replenishments (timerCancel s).nrepls where
  count := by simp [timerCancel, allocated]
  count_le := Nat.zero_le _
  alloced := by simp [timerCancel]
  delay := by simp [timerCancel]

section

variable (records : Records p s.replenishments s.nrepls)
include records

theorem scheduleUnrealized_records {amount : ℕ}
    (bounded : s.nrepls < p.maxRepl → Bounded p amount (sub32 (p.replPeriod / 2) amount)) :
    Records p (scheduleUnrealized p s amount).replenishments
      (scheduleUnrealized p s amount).nrepls := by
  unfold scheduleUnrealized
  split
  · exact records
  rename_i i s' found
  have alloced := (allocRepl_new found records).1
  have room := (allocRepl_spec found).1
  exact (allocRepl_records found records).update rfl (fun _ => alloced) (by simpa using bounded room)

variable (alloced : (s.replenishments i).alloced = true)
include alloced

theorem budgetStart_inv : Inv p (budgetStart p s i) where
  records := records.update rfl (fun _ => alloced) (by simp)
  active := by simp [budgetStart]
  timeslice := by
    right
    simp [budgetStart, toInt32_budget]
  cancelled := by
    intro negative
    simp [budgetStart, toInt32_budget] at negative
    omega

theorem intervalStart_inv
    (inactive : (s.replenishments i).timer = none) : Inv p (intervalStart p s i) := by
  unfold intervalStart
  have cleared : Records p (Function.update s.replenishments i
      { s.replenishments i with replenish := false }) s.nrepls :=
    records.update rfl (fun _ => alloced) (by simp [inactive])
  split
  · exact budgetStart_inv cleared (by simp [State.set, alloced])
  exact {
    records := cleared.update rfl (fun _ => by simp [State.set, alloced]) (by simp)
    active := by simp [State.set]
    timeslice := by
      right
      simp [State.set]
    cancelled := by simp [State.set] }

theorem replenishStart_inv
    (le_budget : (s.replenishments i).budget ≤ p.budget) : Inv p (replenishStart s i) := by
  have slice : toInt32 (s.replenishments i).budget = (s.replenishments i).budget :=
    toInt32_eq (le_budget.trans_lt p.budget_lt)
  refine ⟨records.update rfl (fun _ => alloced) (by simp), by simp [replenishStart], .inr ?_, ?_⟩
  all_goals
    simp only [replenishStart, slice]
    omega

end

theorem scheduleUnrealized_alloced {amount : ℕ} (alloced : (s.replenishments i).alloced = true) :
    (scheduleUnrealized p s amount).replenishments i = s.replenishments i := by
  unfold scheduleUnrealized
  split
  · rfl
  rename_i j s' found
  obtain ⟨_, free, rfl⟩ := allocRepl_spec found
  have other : i ≠ j := by
    rintro rfl
    simp [alloced] at free
  simp [replenishDelay, State.set, other]

/-- The time is at most half a period, so that the delay does not wrap around. -/
theorem bounded_of_le {amount : ℕ} (positive : 0 < amount) (le_budget : amount ≤ p.budget)
    (le_half : amount ≤ p.replPeriod / 2) : Bounded p amount (sub32 (p.replPeriod / 2) amount) := by
  have small := p.replPeriod_lt
  refine ⟨positive, le_budget, ?_⟩
  rw [sub32_eq le_half (by omega)]
  exact Nat.sub_le _ _

/-- No budget expires while the task is suspended, unless the reversed difference fits; no tick is
counted with the `timeslice` at -1; and a task that resumes within its budget was suspended for at
most half a period. -/
def Regular (p : Params) (s : State n) : Op n → Prop
  | .expire i =>
    (s.replenishments i).timer.map Prod.fst = some .budgetExpire → s.lockcount = 0 →
      s.suspended = true → s.nrepls < p.maxRepl → sub32 s.eventtime s.systime ≤ p.budget ∧
          sub32 s.eventtime s.systime ≤ p.replPeriod / 2
  | .process _ _ => 0 ≤ s.timeslice
  | .resume =>
    s.suspended = true → (sub32 s.systime s.eventtime : ℤ) < s.timeslice →
      sub32 s.systime s.eventtime ≤ p.replPeriod / 2
  | _ => True

instance (p : Params) (s : State n) : (op : Op n) → Decidable (Regular p s op)
  | .expire _ => inferInstanceAs (Decidable (_ → _ → _ → _ → _))
  | .process _ _ => inferInstanceAs (Decidable (0 ≤ s.timeslice))
  | .resume => inferInstanceAs (Decidable (_ → _ → _))
  | .advance _ | .suspend | .lock | .unlock => isTrue trivial

theorem cancel_inv (active : s.active ≠ none) : Inv p (timerCancel { s with timeslice := -1 }) where
  records := timerCancel_records _
  active := active
  timeslice := .inl rfl
  cancelled := fun _ => rfl

theorem expire_inv (inv : Inv p s) (started : (s.replenishments i).timer ≠ none)
    (regular : Regular p s (.expire i)) : ∃ s', expire p s i = some s' ∧ Inv p s' := by
  have alloced := inv.records.alloced i started
  -- the record without its timer
  have records : Records p (Function.update s.replenishments i
      { s.replenishments i with timer := none }) s.nrepls :=
    inv.records.update rfl (by simp) (by simp)
  have alloced' : ((s.set i { s.replenishments i with timer := none }).replenishments i).alloced =
      true := by simp [State.set, alloced]
  have inactive : ((s.set i { s.replenishments i with timer := none }).replenishments i).timer =
      none := by simp [State.set]
  cases timer : (s.replenishments i).timer with
  | none => exact absurd timer started
  | some entry =>
    obtain ⟨handler, d⟩ := entry
    cases handler with
    | budgetExpire =>
      refine ⟨_, by rw [expire, timer], ?_⟩
      unfold budgetExpire
      split
      · exact cancel_inv inv.active
      rename_i unlocked
      split
      · rename_i suspended
        have fits := regular (by rw [timer]; rfl) (Nat.eq_zero_of_not_pos unlocked) suspended
        dsimp only
        split
        · rename_i positive
          refine intervalStart_inv (scheduleUnrealized_records records fun room => ?_) ?_ ?_
          · exact bounded_of_le positive (fits room).1 (fits room).2
          · rw [scheduleUnrealized_alloced alloced']
            exact alloced'
          · rw [scheduleUnrealized_alloced alloced']
            exact inactive
        · exact intervalStart_inv records alloced' inactive
      · exact intervalStart_inv records alloced' inactive
    | intervalExpire => exact ⟨_, by rw [expire, timer], budgetStart_inv records alloced'⟩
    | replenishExpire =>
      refine ⟨_, by rw [expire, timer], ?_⟩
      unfold replenishExpire
      split
      · exact cancel_inv inv.active
      exact {
        records := records.free alloced' rfl inactive
        active := inv.active
        timeslice := .inr ⟨le_rfl, Int.natCast_nonneg _⟩
        cancelled := fun negative => absurd negative (lt_irrefl 0) }
    | delayExpire =>
      have le_budget := (inv.records.delay i d timer).2.1
      exact ⟨_, by rw [expire, timer], replenishStart_inv records alloced' (by simpa [State.set])⟩

theorem resumeSporadic_inv (inv : Inv p s) (regular : Regular p s .resume) :
    ∃ s', resumeSporadic p s = some s' ∧ Inv p s' := by
  unfold resumeSporadic
  split
  · exact ⟨s, rfl, inv⟩
  rename_i not_running
  have suspended : s.suspended = true := by simpa using not_running
  dsimp only
  split
  · rename_i both
    obtain ⟨slice_pos, positive⟩ := both
    have bounds := inv.timeslice
    have budget_lt := p.budget_lt
    have slice := toUInt32_eq slice_pos.le (by omega)
    split
    · exact ⟨_, rfl, { inv with }⟩
    rename_i within
    obtain ⟨a, active⟩ := ne_none_iff_exists'.1 inv.active
    have rest : toInt32 (sub32 (toUInt32 s.timeslice) (sub32 s.systime s.eventtime)) =
        s.timeslice - sub32 s.systime s.eventtime := by
      rw [sub32_eq (by omega) (by omega), toInt32_eq (by omega)]
      omega
    simp only [active, rest]
    split
    · split
      · exact ⟨_, rfl, inv.records, by simp, .inr (by simp; omega), by simp; omega⟩
      rename_i i s₃ found
      have le_half := regular suspended (by omega)
      have alloced := (allocRepl_new found inv.records).1
      have records := (allocRepl_records found inv.records).update
        (r := { s₃.replenishments i with
          timer := some (.delayExpire, sub32 (p.replPeriod / 2) (sub32 s.systime s.eventtime))
          budget := sub32 s.systime s.eventtime
          replenish := true }) rfl (fun _ => alloced)
        (by simpa using bounded_of_le positive (by omega) le_half)
      obtain ⟨_, _, rfl⟩ := allocRepl_spec found
      exact ⟨_, rfl, records, by simp [replenishDelay, State.set],
        .inr (by simp [replenishDelay, State.set]; omega),
        by simp [replenishDelay, State.set]; omega⟩
    · exact ⟨_, rfl, inv.records, by simp, .inr (by simp; omega), by simp; omega⟩
  · exact ⟨_, rfl, { inv with }⟩

theorem processSporadic_inv {ticks : ℕ} {noswitches : Bool} (inv : Inv p s)
    (regular : 0 ≤ s.timeslice) (bounded : ticks < 2 ^ 32) :
    Inv p (processSporadic p s ticks noswitches) := by
  have budget_lt := p.budget_lt
  have bounds := inv.timeslice
  have slice := toUInt32_eq regular (by omega)
  unfold processSporadic
  split
  · exact inv
  split
  · split
    · exact ⟨timerCancel_records s, inv.active, .inl rfl, fun _ => rfl⟩
    split
    · exact ⟨inv.records, inv.active, .inr (by simp; omega), by simp⟩
    split
    · refine ⟨inv.records, inv.active, .inr ?_, ?_⟩
      · simp [toInt32_budget]
      · simp only [toInt32_budget]
        omega
    · exact inv
  have rest : toInt32 (sub32 (toUInt32 s.timeslice) ticks) = s.timeslice - ticks := by
    rw [sub32_eq (by omega) (by omega), toInt32_eq (by omega)]
    omega
  refine ⟨inv.records, inv.active, .inr ?_, ?_⟩
  all_goals
    simp only [rest]
    omega

theorem allocRepl_of_free (records : Records p s.replenishments s.nrepls) (none_used : s.nrepls = 0)
    (a : Fin n) : ∃ i s', allocRepl p s = some (i, s') := by
  have room : s.nrepls < p.maxRepl := none_used ▸ p.maxRepl_pos
  have all_free : ∀ i, (s.replenishments i).alloced = false := by
    intro i
    have empty : allocated s.replenishments = ∅ := by
      rw [← Finset.card_eq_zero, ← records.count, none_used]
    have absent : i ∉ allocated s.replenishments := by simp [empty]
    simpa [allocated] using absent
  let first : Fin n := ⟨0, Nat.lt_of_le_of_lt (Nat.zero_le _) a.isLt⟩
  have found : ((List.finRange n).find? fun i =>
      decide (i.val < p.maxRepl) && !(s.replenishments i).alloced).isSome := by
    rw [List.find?_isSome]
    have some_record : 0 < p.maxRepl := p.maxRepl_pos
    exact ⟨first, List.mem_finRange _, by simpa [first, all_free] using some_record⟩
  obtain ⟨i, found⟩ := isSome_iff_exists.1 found
  exact ⟨i, _, by rw [allocRepl, if_pos room, found]⟩

theorem lowpriority_inv (records : Records p s.replenishments s.nrepls) (none_used : s.nrepls = 0)
    (a : Fin n) : ∃ s', lowpriority p s = some s' ∧ Inv p s' := by
  obtain ⟨i, s', found⟩ :=
    allocRepl_of_free (s := { s with timeslice := 0 }) records none_used a
  obtain ⟨alloced, no_timer⟩ := allocRepl_new found records
  have grown := allocRepl_records found records
  have main := grown.update (r := { s'.replenishments i with main := true, budget := p.budget }) rfl
    (fun _ => alloced) (by simp [no_timer])
  refine ⟨_, by rw [lowpriority, found]; rfl, intervalStart_inv main ?_ ?_⟩
  · simp [State.set, alloced]
  · simp [State.set, no_timer]

theorem step_inv (inv : Inv p s) (op : Op n) (valid : Valid s op) (regular : Regular p s op) :
    ∃ s', step p s op = some s' ∧ Inv p s' := by
  cases op with
  | advance | lock => exact ⟨_, rfl, { inv with }⟩
  | suspend =>
    refine ⟨_, rfl, ?_⟩
    unfold suspendSporadic
    split
    · exact inv
    · exact { inv with }
  | resume => exact resumeSporadic_inv inv regular
  | expire i => exact expire_inv inv valid regular
  | process ticks noswitches => exact ⟨_, rfl, processSporadic_inv inv regular valid.2⟩
  | unlock =>
    simp only [step, unlock]
    split
    · rename_i last
      obtain ⟨a, _⟩ := ne_none_iff_exists'.1 inv.active
      exact lowpriority_inv inv.records (inv.cancelled last.2) a
    · exact ⟨_, rfl, { inv with }⟩

theorem startSporadic_inv {systime lockcount : ℕ}
    (starts : startSporadic p { reset n systime with lockcount := lockcount } = some s) :
    Inv p s := by
  simp only [startSporadic, bind_eq_bind, bind_eq_some_iff, Option.some.injEq] at starts
  obtain ⟨⟨i, s'⟩, found, rfl⟩ := starts
  have records : Records p (reset n systime).replenishments (reset n systime).nrepls :=
    ⟨by simp [reset, allocated], Nat.zero_le _, by simp [reset], by simp [reset]⟩
  obtain ⟨alloced, no_timer⟩ := allocRepl_new found records
  have grown := allocRepl_records found records
  exact budgetStart_inv (grown.update rfl (fun _ => alloced) (by simp [no_timer]))
    (by simp [State.set, alloced])

theorem Run.inv (run : Run p (Regular p) s) : Inv p s := by
  induction run with
  | start systime lockcount _ starts => exact startSporadic_inv starts
  | step _ op valid regular returns ih =>
    obtain ⟨s', returned, inv⟩ := step_inv ih op valid regular
    rw [returns, Option.some.injEq] at returned
    exact returned ▸ inv

/-- In regular runs: `nrepls` counts the allocated records and does not exceed `max_repl`, the
`timeslice` is -1 or between zero and the budget, every scheduled replenishment is bounded, and
every regular step returns. -/
theorem run_sporadic (run : Run p (Regular p) s) :
    s.nrepls = (allocated s.replenishments).card ∧ s.nrepls ≤ p.maxRepl ∧
      (s.timeslice = -1 ∨ 0 ≤ s.timeslice ∧ s.timeslice ≤ p.budget) ∧
      (∀ i d, (s.replenishments i).timer = some (.delayExpire, d) →
        Bounded p (s.replenishments i).budget d) ∧
      ∀ op, Valid s op → Regular p s op → ∃ s', step p s op = some s' := by
  have inv := run.inv
  refine ⟨inv.records.count, inv.records.count_le, inv.timeslice, inv.records.delay, ?_⟩
  intro op valid regular
  obtain ⟨s', returns, _⟩ := step_inv inv op valid regular
  exact ⟨s', returns⟩

end

def twoRecords : Params :=
  ⟨2, 20, 5, Nat.two_pos, by decide, by decide, by decide⟩

def startedTask : State 2 := (startSporadic twoRecords (reset 2 100)).get (by decide)

theorem startedTask_run (condition : State 2 → Op 2 → Prop) : Run twoRecords condition startedTask :=
  .start 100 0 (by decide) (some_get _).symm

/-- A task uses one tick of its budget, is suspended for two, and gets them back eight ticks later. -/
theorem run_sporadic_replenished :
    ∃ s : State 2, Run twoRecords (Regular twoRecords) s ∧ s.nrepls = 2 ∧
      (s.replenishments 1).timer = some (.delayExpire, 8) ∧
      Bounded twoRecords (s.replenishments 1).budget 8 := by
  obtain ⟨s, run, fields⟩ := (startedTask_run (Regular twoRecords)).exists_of_exec
    [.resume, .process 1 false, .suspend, .advance 2, .resume]
    (fun s => (s.nrepls, (s.replenishments 1).timer)) (v := (2, some (.delayExpire, 8)))
    (by decide +kernel)
  obtain ⟨count, timer⟩ := Prod.mk.inj fields
  exact ⟨s, run, count, timer, (run_sporadic run).2.2.2.1 1 8 timer⟩

/-- The budget expires 5 ticks after the start of a task that has not yet run: the replenishment has
the amount 2 ^ 32 - 5. And a tick with the scheduler locked takes the `timeslice` from -1 to -2. -/
theorem expire_schedules_wrapped :
    (∃ s : State 2, Run twoRecords (fun _ _ => True) s ∧
      (s.replenishments 1).timer = some (.delayExpire, 15) ∧
      (s.replenishments 1).budget = 2 ^ 32 - 5) ∧
    ∃ s : State 2, Run twoRecords (fun _ _ => True) s ∧ s.timeslice = -2 := by
  refine ⟨?_, ?_⟩
  · obtain ⟨s, run, fields⟩ := (startedTask_run fun _ _ => True).exists_of_exec
      [.advance 5, .expire 0] (fun s => ((s.replenishments 1).timer, (s.replenishments 1).budget))
      (v := (some (.delayExpire, 15), 2 ^ 32 - 5)) (by decide +kernel)
    exact ⟨s, run, (Prod.mk.inj fields).1, (Prod.mk.inj fields).2⟩
  · exact (startedTask_run fun _ _ => True).exists_of_exec
      [.resume, .lock, .process 5 false, .process 1 false] State.timeslice (by decide +kernel)

end NuttxRtos.Sporadic
