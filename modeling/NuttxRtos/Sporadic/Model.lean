import Mathlib.Data.Fintype.Card
import NuttxRtos.Lib.Word

/-! Sporadic scheduling of one task: `sched_sporadic.c` and the hooks that call it. The priorities
that the functions set last, after everything else, are left out. -/

namespace NuttxRtos.Sporadic

open Word

/-- The scheduling parameters, as `sched_setscheduler` accepts them. -/
structure Params where
  maxRepl : ℕ
  replPeriod : ℕ
  budget : ℕ
  maxRepl_pos : 1 ≤ maxRepl
  budget_pos : 1 ≤ budget
  budget_le : budget ≤ replPeriod
  replPeriod_lt : replPeriod < 2 ^ 31

/-- The handler that a watchdog of a replenishment record calls. -/
inductive Handler where
  | budgetExpire
  | intervalExpire
  | replenishExpire
  | delayExpire
  deriving DecidableEq

/-- `struct replenishment_s`. The timer holds the handler and the delay with which it was started. -/
structure Replenishment where
  timer : Option (Handler × ℕ)
  budget : ℕ
  alloced : Bool
  main : Bool
  replenish : Bool
  deriving DecidableEq

/-- The fields of `struct sporadic_s` and of the TCB, and the system timer. -/
structure State (n : ℕ) where
  suspended : Bool
  nrepls : ℕ
  eventtime : ℕ
  active : Option (Fin n)
  replenishments : Fin n → Replenishment
  timeslice : ℤ
  lockcount : ℕ
  systime : ℕ

/-- Assignment of a `uint32_t` to the `int32_t` member `timeslice`. -/
def toInt32 (x : ℕ) : ℤ := (x : ℤ).bmod (2 ^ 32)

/-- The `timeslice` as it takes part in an operation with a `uint32_t`. -/
def toUInt32 (x : ℤ) : ℕ := (x % 2 ^ 32).toNat

section

variable {n : ℕ}

def State.set (s : State n) (i : Fin n) (r : Replenishment) : State n :=
  { s with replenishments := Function.update s.replenishments i r }

/-- The records flagged `SPORADIC_FLAG_ALLOCED`. -/
def allocated (r : Fin n → Replenishment) : Finset (Fin n) :=
  Finset.univ.filter fun i => (r i).alloced = true

def allocRepl (p : Params) (s : State n) : Option (Fin n × State n) :=
  if s.nrepls < p.maxRepl then
    match (List.finRange n).find? fun i =>
        decide (i.val < p.maxRepl) && !(s.replenishments i).alloced with
    | none => none
    | some i =>
      some (i, { s.set i { s.replenishments i with
          alloced := true
          main := false
          replenish := false } with nrepls := s.nrepls + 1 })
  else none

def budgetStart (p : Params) (s : State n) (i : Fin n) : State n :=
  { s.set i { s.replenishments i with
      timer := some (.budgetExpire, p.budget)
      budget := p.budget
      replenish := false } with
    timeslice := toInt32 p.budget
    active := some i
    eventtime := s.systime }

def intervalStart (p : Params) (s : State n) (i : Fin n) : State n :=
  let s' := { s.set i { s.replenishments i with replenish := false } with
    timeslice := 0
    active := some i }
  if p.replPeriod - p.budget = 0 then budgetStart p s' i
  else s'.set i { s'.replenishments i with
    timer := some (.intervalExpire, p.replPeriod - p.budget) }

def replenishStart (s : State n) (i : Fin n) : State n :=
  { s.set i { s.replenishments i with
      timer := some (.replenishExpire, (s.replenishments i).budget)
      replenish := true } with
    timeslice := toInt32 (s.replenishments i).budget
    active := some i }

def replenishDelay (s : State n) (i : Fin n) (period replenish : ℕ) : State n :=
  s.set i { s.replenishments i with
    timer := some (.delayExpire, period)
    budget := replenish
    replenish := true }

def timerCancel (s : State n) : State n :=
  { s with
    replenishments := fun i => { s.replenishments i with
      timer := none
      alloced := false
      main := false
      replenish := false }
    nrepls := 0 }

/-- A replenishment for the time that the task could not use, half a scheduler cycle after it was
suspended. If no record is free, there is none. -/
def scheduleUnrealized (p : Params) (s : State n) (unrealized : ℕ) : State n :=
  match allocRepl p s with
  | none => s
  | some (i, s') => replenishDelay s' i (sub32 (p.replPeriod / 2) unrealized) unrealized

def budgetExpire (p : Params) (s : State n) (i : Fin n) : State n :=
  if 0 < s.lockcount then timerCancel { s with timeslice := -1 }
  else if s.suspended then
    let unrealized := sub32 s.eventtime s.systime
    intervalStart p (if 0 < unrealized then scheduleUnrealized p s unrealized else s) i
  else intervalStart p s i

def replenishExpire (s : State n) (i : Fin n) : State n :=
  if 0 < s.lockcount then timerCancel { s with timeslice := -1 }
  else
    { s.set i { s.replenishments i with
        alloced := false
        main := false
        replenish := false } with
      timeslice := 0
      nrepls := s.nrepls - 1 }

/-- A watchdog is inactive when its function is called. -/
def expire (p : Params) (s : State n) (i : Fin n) : Option (State n) :=
  let s' := s.set i { s.replenishments i with timer := none }
  match (s.replenishments i).timer with
  | none => none
  | some (.budgetExpire, _) => some (budgetExpire p s' i)
  | some (.intervalExpire, _) => some (budgetStart p s' i)
  | some (.replenishExpire, _) => some (replenishExpire s' i)
  | some (.delayExpire, _) => some (replenishStart s' i)

def resumeSporadic (p : Params) (s : State n) : Option (State n) :=
  if !s.suspended then some s
  else
    let s' := { s with suspended := false }
    let unrealized := sub32 s.systime s.eventtime
    if 0 < s.timeslice ∧ 0 < unrealized then
      if toUInt32 s.timeslice ≤ unrealized then some s'
      else
        match s.active with
        | none => none
        | some a =>
          let timeslice := toInt32 (sub32 (toUInt32 s.timeslice) unrealized)
          let s'' := { s' with timeslice := timeslice }
          if toUInt32 timeslice < (s.replenishments a).budget then
            match allocRepl p s'' with
            | none => some { s'' with eventtime := s.systime }
            | some (i, s₃) =>
              some (replenishDelay s₃ i (sub32 (p.replPeriod / 2) unrealized) unrealized)
          else some { s'' with eventtime := s.systime }
    else some { s' with eventtime := s.systime }

def suspendSporadic (s : State n) : State n :=
  if s.suspended then s else { s with suspended := true, eventtime := s.systime }

def processSporadic (p : Params) (s : State n) (ticks : ℕ) (noswitches : Bool) : State n :=
  if s.timeslice = 0 then s
  else if toUInt32 s.timeslice ≤ ticks then
    if 0 < s.lockcount then { timerCancel s with timeslice := -1 }
    else if noswitches then { s with timeslice := 1 }
    else if p.replPeriod ≤ p.budget then { s with timeslice := toInt32 p.budget }
    else s
  else { s with timeslice := toInt32 (sub32 (toUInt32 s.timeslice) ticks) }

/-- `nxsched_sporadic_lowpriority`. The new main record is dereferenced. -/
def lowpriority (p : Params) (s : State n) : Option (State n) := do
  let (i, s') ← allocRepl p { s with timeslice := 0 }
  some (intervalStart p
    { s'.set i { s'.replenishments i with main := true, budget := p.budget } with
      timeslice := 0
      active := some i } i)

/-- The part of `sched_unlock` for a task under sporadic scheduling. -/
def unlock (p : Params) (s : State n) : Option (State n) :=
  let s' := { s with lockcount := s.lockcount - 1 }
  if s.lockcount - 1 = 0 ∧ s.timeslice < 0 then lowpriority p s' else some s'

inductive Op (n : ℕ) where
  | advance (ticks : ℕ)
  | suspend
  | resume
  | expire (i : Fin n)
  | process (ticks : ℕ) (noswitches : Bool)
  | lock
  | unlock

def step (p : Params) (s : State n) : Op n → Option (State n)
  | .advance ticks => some { s with systime := add32 s.systime ticks }
  | .suspend => some (suspendSporadic s)
  | .resume => resumeSporadic p s
  | .expire i => expire p s i
  | .process ticks noswitches => some (processSporadic p s ticks noswitches)
  | .lock => some { s with lockcount := s.lockcount + 1 }
  | .unlock => unlock p s

/-- The state that `nxsched_reset_sporadic` or `nxsched_initialize_sporadic` leaves, at any time. -/
def reset (n systime : ℕ) : State n where
  suspended := true
  nrepls := 0
  eventtime := 0
  active := none
  replenishments := fun _ => ⟨none, 0, false, false, false⟩
  timeslice := 0
  lockcount := 0
  systime := systime

def startSporadic (p : Params) (s : State n) : Option (State n) := do
  let (i, s') ← allocRepl p s
  some (budgetStart p
    { s'.set i { s'.replenishments i with main := true } with
      eventtime := s.systime
      suspended := true } i)

/-- Ticks are counted from the last call, and only a timer that was started expires. -/
def Valid (s : State n) : Op n → Prop
  | .expire i => (s.replenishments i).timer ≠ none
  | .process ticks _ => 0 < ticks ∧ ticks < 2 ^ 32
  | _ => True

instance (s : State n) : (op : Op n) → Decidable (Valid s op)
  | .expire i => inferInstanceAs (Decidable ((s.replenishments i).timer ≠ none))
  | .process ticks _ => inferInstanceAs (Decidable (0 < ticks ∧ ticks < 2 ^ 32))
  | .advance _ | .suspend | .resume | .lock | .unlock => isTrue trivial

/-- A reachable state of a task from the start of its sporadic scheduling on. -/
inductive Run (p : Params) (condition : State n → Op n → Prop) : State n → Prop where
  | start {s : State n} (systime lockcount : ℕ) (bounded : systime < 2 ^ 32)
      (starts : startSporadic p { reset n systime with lockcount := lockcount } = some s) :
      Run p condition s
  | step {s s' : State n} (run : Run p condition s) (op : Op n) (valid : Valid s op)
      (allowed : condition s op) (returns : step p s op = some s') : Run p condition s'

/-- A task that starts at some time and takes some steps, as long as they are allowed. -/
def exec (p : Params) (condition : State n → Op n → Prop)
    [∀ s op, Decidable (condition s op)] : State n → List (Op n) → Option (State n)
  | s, [] => some s
  | s, op :: ops =>
    if Valid s op ∧ condition s op then (step p s op).bind fun s' => exec p condition s' ops
    else none

variable {p : Params} {condition : State n → Op n → Prop} {s : State n}

theorem Run.exec [∀ s op, Decidable (condition s op)] {s' : State n} {ops : List (Op n)}
    (run : Run p condition s) (returns : exec p condition s ops = some s') :
    Run p condition s' := by
  induction ops generalizing s with
  | nil =>
    rw [Sporadic.exec, Option.some.injEq] at returns
    exact returns ▸ run
  | cons op ops ih =>
    rw [Sporadic.exec] at returns
    split at returns
    · rename_i allowed
      obtain ⟨next, steps, rest⟩ := Option.bind_eq_some_iff.1 returns
      exact ih (run.step op allowed.1 allowed.2 steps) rest
    · cases returns

/-- What is computed of the last state of an execution holds of a reachable state. -/
theorem Run.exists_of_exec {α : Type*} [∀ s op, Decidable (condition s op)]
    (run : Run p condition s) (ops : List (Op n)) (f : State n → α) {v : α}
    (result : (Sporadic.exec p condition s ops).map f = some v) :
    ∃ s', Run p condition s' ∧ f s' = v := by
  obtain ⟨s', returns, value⟩ := Option.map_eq_some_iff.1 result
  exact ⟨s', run.exec returns, value⟩

end

end NuttxRtos.Sporadic
