import NuttxRtos.Lib.Chain
import Mathlib.Data.Fintype.Card

/-!
# Mutexes of pthreads

The functions of `sched/pthread/pthread_mutex*.c` in a build with `CONFIG_PTHREAD_MUTEX_BOTH` and
`CONFIG_PTHREAD_MUTEX_TYPES`. A call runs with the scheduler locked, so it is one step, except that
`pthread_mutex_take` may wait for the semaphore: then the call stops, and it goes on when the thread
has been given the semaphore, or ends when the wait does. A thread is identified with its pid.
-/

namespace NuttxRtos.Pthread

open Chain

variable {α μ : Type}

inductive MutexType where
  | normal
  | errorcheck
  | recursive
  deriving DecidableEq

/-- `struct pthread_mutex_s` without its link; `waiting` are the threads that wait for its
semaphore, and `pid` is `none` for -1. -/
structure Mutex (α : Type) where
  semcount : ℤ
  waiting : List α
  pid : Option α
  robust : Bool
  inconsistent : Bool
  type : MutexType
  nlocks : ℕ

/-- What a thread is doing: it waits for the semaphore of a mutex, or it has been given it and did
not run since. -/
inductive Status (μ : Type) where
  | running
  | waiting (mutex : μ)
  | woken (mutex : μ)
  | exited
  deriving DecidableEq

/-- The mutexes with their links, and `mhead` of every thread. -/
structure State (α μ : Type) where
  mutex : μ → Mutex α
  flink : μ → Option μ
  mhead : α → Option μ
  status : α → Status μ

/-- What a call returns; `blocked` stands for a call that waits. -/
inductive Result where
  | ok
  | blocked
  | edeadlk
  | eoverflow
  | eownerdead
  | ebusy
  | eperm
  | interrupted
  deriving DecidableEq

def int16Max : ℕ := 32767

def pthreadMutexInit (robust : Bool) (type : MutexType) : Mutex α :=
  { semcount := 1, waiting := [], pid := none, robust := robust, inconsistent := false, type := type
    nlocks := 0 }

def State.setMutex [DecidableEq μ] (s : State α μ) (m : μ) (mutex : Mutex α) : State α μ :=
  { s with mutex := Function.update s.mutex m mutex }

def State.setStatus [DecidableEq α] (s : State α μ) (t : α) (status : Status μ) : State α μ :=
  { s with status := Function.update s.status t status }

section Fields

variable {s : State α μ} {m k : μ} {t u : α} {mutex : Mutex α} {status : Status μ}

section

variable [DecidableEq μ]

@[simp] theorem State.setMutex_self : (s.setMutex m mutex).mutex m = mutex :=
  Function.update_self ..

theorem State.setMutex_other (other : k ≠ m) : (s.setMutex m mutex).mutex k = s.mutex k :=
  Function.update_of_ne other ..

@[simp] theorem State.setMutex_flink : (s.setMutex m mutex).flink = s.flink := rfl

@[simp] theorem State.setMutex_mhead : (s.setMutex m mutex).mhead = s.mhead := rfl

@[simp] theorem State.setMutex_status : (s.setMutex m mutex).status = s.status := rfl

end

variable [DecidableEq α]

@[simp] theorem State.setStatus_mutex : (s.setStatus t status).mutex = s.mutex := rfl

@[simp] theorem State.setStatus_flink : (s.setStatus t status).flink = s.flink := rfl

@[simp] theorem State.setStatus_mhead : (s.setStatus t status).mhead = s.mhead := rfl

end Fields

variable [DecidableEq α] [DecidableEq μ]

/-! ## The semaphore -/

/-- `nxsem_post`. Which waiting thread has the highest priority is left open: `pick` says it. -/
def semPost (pick : μ → ℕ) (s : State α μ) (m : μ) : State α μ :=
  let mutex := s.mutex m
  let count := mutex.semcount + 1
  let next := if count ≤ 0 then mutex.waiting[pick m % mutex.waiting.length]? else none
  match next with
  | none => s.setMutex m { mutex with semcount := count }
  | some w =>
    (s.setMutex m { mutex with semcount := count, waiting := mutex.waiting.erase w }).setStatus w
      (.woken m)

/-- The end of a wait by a signal or a timeout. -/
def semCancel (s : State α μ) (t : α) (m : μ) : State α μ :=
  let mutex := s.mutex m
  s.setMutex m { mutex with semcount := mutex.semcount + 1, waiting := mutex.waiting.erase t }

/-! ## The list of held mutexes -/

def pthreadMutexAdd (s : State α μ) (t : α) (m : μ) : State α μ :=
  { s with
    flink := Function.update s.flink m (s.mhead t)
    mhead := Function.update s.mhead t (some m) }

/-- The search is bounded by the number of mutexes; on a list with a cycle it would not end. -/
def pthreadMutexRemove [Fintype μ] (s : State α μ) (t : α) (m : μ) : Option (State α μ) := do
  let prev ← findPrev s.flink m (Fintype.card μ + 1) none (s.mhead t)
  return { s with
    flink := unlinkNext s.flink m prev
    mhead := Function.update s.mhead t (unlinkHead s.flink (s.mhead t) m prev) }

/-! ## Locking -/

/-- The end of a lock by a thread that got the semaphore: `pthread_mutex_take` and the caller. -/
def lockTaken (s : State α μ) (t : α) (m : μ) : Result × State α μ :=
  let mutex := s.mutex m
  if mutex.inconsistent then (.eownerdead, s)
  else (.ok, (pthreadMutexAdd s t m).setMutex m { mutex with pid := some t, nlocks := 1 })

/-- `pthread_mutex_take` up to the place where it waits. -/
def pthreadMutexTake (s : State α μ) (t : α) (m : μ) : Result × State α μ :=
  let mutex := s.mutex m
  if mutex.inconsistent then (.eownerdead, s)
  else if 0 < mutex.semcount then
    lockTaken (s.setMutex m { mutex with semcount := mutex.semcount - 1 }) t m
  else
    let waiting := mutex.waiting ++ [t]
    (.blocked, (s.setMutex m
      { mutex with semcount := mutex.semcount - 1, waiting := waiting }).setStatus t (.waiting m))

/-- The holder of the mutex has terminated, and the mutex is of a kind that checks it. -/
def ownerDead (s : State α μ) (mutex : Mutex α) : Bool :=
  match mutex.pid with
  | none => false
  | some pid => (mutex.robust || mutex.type ≠ .normal) && s.status pid = .exited

/-- One more lock of a recursive mutex by its holder. -/
def lockAgain (s : State α μ) (m : μ) : Result × State α μ :=
  let mutex := s.mutex m
  if mutex.nlocks < int16Max then (.ok, s.setMutex m { mutex with nlocks := mutex.nlocks + 1 })
  else (.eoverflow, s)

/-- `pthread_mutex_timedlock`, and `pthread_mutex_lock`, which calls it without a time. -/
def pthreadMutexTimedlock (s : State α μ) (t : α) (m : μ) : Result × State α μ :=
  let mutex := s.mutex m
  if mutex.type ≠ .normal ∧ mutex.pid = some t then
    if mutex.type = .recursive then lockAgain s m else (.edeadlk, s)
  else if ownerDead s mutex then (.eownerdead, s.setMutex m { mutex with inconsistent := true })
  else pthreadMutexTake s t m

def pthreadMutexTrylock (s : State α μ) (t : α) (m : μ) : Result × State α μ :=
  let mutex := s.mutex m
  if mutex.inconsistent then (.eownerdead, s)
  else if 0 < mutex.semcount then
    let s := s.setMutex m { mutex with semcount := mutex.semcount - 1 }
    let nlocks := if mutex.type = .recursive then 1 else mutex.nlocks
    (.ok, (pthreadMutexAdd s t m).setMutex m
      { s.mutex m with pid := some t, nlocks := nlocks })
  else if mutex.type = .recursive ∧ mutex.pid = some t then lockAgain s m
  else if ownerDead s mutex then (.eownerdead, s.setMutex m { mutex with inconsistent := true })
  else (.ebusy, s)

/-! ## Unlocking -/

/-- The calling thread is not asked whether it holds a NORMAL mutex that is not robust. -/
def errcheck (mutex : Mutex α) : Bool := mutex.robust || mutex.type ≠ .normal

variable [Fintype μ]

def pthreadMutexGive (pick : μ → ℕ) (s : State α μ) (t : α) (m : μ) : Option (State α μ) := do
  let s ← pthreadMutexRemove s t m
  return semPost pick s m

def pthreadMutexUnlock (pick : μ → ℕ) (s : State α μ) (t : α) (m : μ) :
    Option (Result × State α μ) :=
  let mutex := s.mutex m
  if mutex.semcount < 1 then
    if errcheck mutex ∧ mutex.pid ≠ some t then some (.eperm, s)
    else if mutex.type = .recursive ∧ 1 < mutex.nlocks then
      some (.ok, s.setMutex m { mutex with nlocks := mutex.nlocks - 1 })
    else do
      let s ← pthreadMutexGive pick (s.setMutex m { mutex with pid := none, nlocks := 0 }) t m
      return (.ok, s)
  else some (.eperm, s)

/-! ## Exiting -/

/-- The body of the loop of `pthread_mutex_inconsistent`, for the first mutex of the list. -/
def inconsistentBody (pick : μ → ℕ) (t : α) (s : State α μ) (m : μ) : State α μ :=
  let s := { s with
    mhead := Function.update s.mhead t (s.flink m)
    flink := Function.update s.flink m none }
  semPost pick (s.setMutex m { s.mutex m with inconsistent := true }) m

def inconsistentLoop (pick : μ → ℕ) (t : α) : ℕ → State α μ → Option (State α μ)
  | 0, _ => none
  | fuel + 1, s =>
    match s.mhead t with
    | none => some s
    | some m => inconsistentLoop pick t fuel (inconsistentBody pick t s m)

def pthreadMutexInconsistent (pick : μ → ℕ) (s : State α μ) (t : α) : Option (State α μ) :=
  inconsistentLoop pick t (Fintype.card μ + 1) s

/-- The thread is deleted. A count that it waited for is not given back: `nxsem_recover` does
nothing when `nxtask_terminate` has made the state of the task invalid. -/
def terminate (s : State α μ) (t : α) : State α μ :=
  match s.status t with
  | .waiting m =>
    let mutex := s.mutex m
    (s.setMutex m { mutex with waiting := mutex.waiting.erase t }).setStatus t .exited
  | _ => s.setStatus t .exited

def pthreadExit (pick : μ → ℕ) (s : State α μ) (t : α) : Option (State α μ) := do
  let s ← pthreadMutexInconsistent pick s t
  return terminate s t

end NuttxRtos.Pthread
