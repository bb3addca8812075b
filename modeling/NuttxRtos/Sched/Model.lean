import NuttxRtos.Lib.PriorityList

/-! The task lists of the single-CPU scheduler: `g_readytorun`, whose head is the running task,
`g_pendingtasks`, where tasks wait that may not pre-empt a task that holds the scheduler lock, and
one list for each blocked state. -/

namespace NuttxRtos.Sched

open Function (update)

/-- The blocked states, one list for each. -/
inductive Wait where
  | inactive
  | waitSem
  | waitSig
  | waitMqNotEmpty
  | waitMqNotFull
  | stopped
  deriving DecidableEq

/-- The `TLIST_ATTR_PRIORITIZED` attribute of `g_tasklisttable`. -/
def Wait.isPrioritized : Wait → Bool
  | .waitSem | .waitMqNotEmpty | .waitMqNotFull => true
  | .inactive | .waitSig | .stopped => false

inductive TState where
  | invalid
  | pending
  | readytorun
  | running
  | blocked (w : Wait)
  deriving DecidableEq

def priorityMin : ℕ := 1

def priorityMax : ℕ := 255

/-- The task lists, and the fields of each TCB that the scheduler reads. -/
structure State (τ : Type) where
  readytorun : List τ
  pendingtasks : List τ
  waiting : Wait → List τ
  priority : τ → ℕ
  taskState : τ → TState
  lockcount : τ → ℕ

section

variable {τ : Type} [DecidableEq τ]

@[simps]
def State.setState (s : State τ) (t : τ) (state : TState) : State τ :=
  { s with taskState := update s.taskState t state }

@[simps]
def State.setPrio (s : State τ) (t : τ) (p : ℕ) : State τ :=
  { s with priority := update s.priority t p }

@[simps]
def State.setLockcount (s : State τ) (t : τ) (n : ℕ) : State τ :=
  { s with lockcount := update s.lockcount t n }

@[simps]
def State.setWaiting (s : State τ) (w : Wait) (l : List τ) : State τ :=
  { s with waiting := update s.waiting w l }

/-- The list with the task inserted, and whether the task is now its head. -/
def addPrioritized (s : State τ) (t : τ) (l : List τ) : List τ × Bool :=
  (PriorityList.insert s.priority t l,
    match l with
    | [] => true
    | next :: _ => decide (s.priority next < s.priority t))

/-- The branches of `nxsched_add_readytorun` that add the task to `g_readytorun`. -/
def addRunnable (s : State τ) (rtcb t : τ) : State τ × Bool :=
  match addPrioritized s t s.readytorun with
  | (l, true) =>
    ((({ s with readytorun := l }.setState t .running).setState rtcb .readytorun), true)
  | (l, false) => ({ s with readytorun := l }.setState t .readytorun, false)

def addReadytorun (s : State τ) (t : τ) : Option (State τ × Bool) :=
  match s.readytorun with
  | [] => none
  | rtcb :: _ =>
    if 0 < s.lockcount rtcb ∧ s.priority rtcb < s.priority t then
      some ({ s with pendingtasks := (addPrioritized s t s.pendingtasks).1 }.setState t .pending,
        false)
    else some (addRunnable s rtcb t)

def removeReadytorun (s : State τ) (t : τ) : Option (State τ × Bool) :=
  match s.readytorun with
  | [] => none
  | head :: rest =>
    if head = t then
      match rest with
      | [] => none
      | next :: _ =>
        some (({ s with readytorun := rest }.setState next .running).setState t .invalid, true)
    else some ({ s with readytorun := s.readytorun.erase t }.setState t .invalid, false)

/-- The loop of `nxsched_merge_pending`: `rest` starts at `rtcb`, `before` is what the inner search
has passed. -/
structure Cursor (τ : Type) where
  before : List τ
  rest : List τ
  taskState : τ → TState
  ret : Bool

def mergeStep (priority : τ → ℕ) (c : Cursor τ) (p : τ) : Option (Cursor τ) :=
  let before := c.before ++ c.rest.takeWhile fun r => decide (priority p ≤ priority r)
  match c.rest.dropWhile fun r => decide (priority p ≤ priority r) with
  | [] => none
  | r :: rest =>
    if before = [] then
      some ⟨[], p :: r :: rest, update (update c.taskState r .readytorun) p .running, true⟩
    else some ⟨before, p :: r :: rest, update c.taskState p .readytorun, c.ret⟩

def Cursor.put (c : Cursor τ) (s : State τ) (pendingtasks : List τ) : State τ :=
  { s with
    readytorun := c.before ++ c.rest
    pendingtasks := pendingtasks
    taskState := c.taskState }

def mergePending (s : State τ) : Option (State τ × Bool) :=
  (s.pendingtasks.foldlM (mergeStep s.priority) ⟨[], s.readytorun, s.taskState, false⟩).map
    fun c => (c.put s [], c.ret)

/-- What the callers do: merge if `g_pendingtasks.head` is not null. -/
def mergeIfPending (s : State τ) : Option (State τ) :=
  if s.pendingtasks = [] then some s else (mergePending s).map Prod.fst

/-- The loop of `nxsched_merge_prioritized`. `tcb2` is the head of the last list and `before` what
is in front of it in `list2`. -/
def mergeLoop (priority : τ → ℕ) (before : List τ) : List τ → List τ → List τ
  | [], rest => before ++ rest
  | tcb1 :: clone, [] => before ++ tcb1 :: clone
  | tcb1 :: clone, tcb2 :: rest =>
    if priority tcb2 < priority tcb1 then mergeLoop priority (before ++ [tcb1]) clone (tcb2 :: rest)
    else mergeLoop priority (before ++ [tcb2]) (tcb1 :: clone) rest
termination_by clone rest => clone.length + rest.length

/-- `nxsched_merge_prioritized`, with `list1`, `list2` and the task states that it leaves. -/
def mergePrioritized (s : State τ) (list1 list2 : List τ) (state : TState) :
    List τ × List τ × (τ → TState) :=
  ([], mergeLoop s.priority [] list1 list2,
    list1.foldl (fun taskState t => update taskState t state) s.taskState)

def addBlocked (s : State τ) (t : τ) (w : Wait) : State τ :=
  (s.setWaiting w
    (if w.isPrioritized then (addPrioritized s t (s.waiting w)).1 else s.waiting w ++ [t])).setState
      t (.blocked w)

def removeBlocked (s : State τ) (t : τ) : Option (State τ) :=
  match s.taskState t with
  | .blocked w => some ((s.setWaiting w ((s.waiting w).erase t)).setState t .invalid)
  | _ => none

def upReprioritizeRtr (s : State τ) (t : τ) (p : ℕ) : Option (State τ) := do
  let removed ← removeReadytorun s t
  let added ← addReadytorun (removed.1.setPrio t p) t
  if removed.2 ^^ added.2 then mergeIfPending added.1 else some added.1

def runningSetpriority (s : State τ) (t : τ) (p : ℕ) : Option (State τ) :=
  match s.readytorun with
  | _ :: next :: _ =>
    if p ≤ s.priority next then upReprioritizeRtr s t p else some (s.setPrio t p)
  | _ => none

def readytorunSetpriority (s : State τ) (t : τ) (p : ℕ) : Option (State τ) :=
  match s.readytorun with
  | [] => none
  | rtcb :: _ =>
    if s.priority rtcb < p then upReprioritizeRtr s t p
    else do
      let removed ← removeReadytorun s t
      let added ← addReadytorun (removed.1.setPrio t p) t
      some added.1

/-- `nxsched_blocked_setpriority` moves a task within a prioritized list, `g_pendingtasks` among
them. -/
def blockedSetpriority (s : State τ) (t : τ) (p : ℕ) : State τ :=
  let s' := s.setPrio t p
  match s.taskState t with
  | .pending =>
    { s' with pendingtasks := (addPrioritized s' t (s.pendingtasks.erase t)).1 }
  | .blocked w =>
    if w.isPrioritized then s'.setWaiting w (addPrioritized s' t ((s.waiting w).erase t)).1 else s'
  | _ => s'

/-- A priority out of range is refused with `EINVAL`. -/
def setPriority (s : State τ) (t : τ) (p : ℕ) : Option (State τ) :=
  if p < priorityMin ∨ priorityMax < p then some s
  else
    match s.taskState t with
    | .running => runningSetpriority s t p
    | .readytorun => readytorunSetpriority s t p
    | _ => some (blockedSetpriority s t p)

def upBlockTask (s : State τ) (t : τ) (w : Wait) : Option (State τ) := do
  let removed ← removeReadytorun s t
  mergeIfPending (addBlocked removed.1 t w)

def upUnblockTask (s : State τ) (t : τ) : Option (State τ) := do
  let s' ← removeBlocked s t
  let added ← addReadytorun s' t
  some added.1

def schedLock (s : State τ) : Option (State τ) :=
  match s.readytorun with
  | [] => none
  | rtcb :: _ => some (s.setLockcount rtcb (s.lockcount rtcb + 1))

def schedUnlock (s : State τ) : Option (State τ) :=
  match s.readytorun with
  | [] => none
  | rtcb :: _ =>
    let s' := s.setLockcount rtcb (s.lockcount rtcb - 1)
    if s.lockcount rtcb - 1 = 0 then mergeIfPending s' else some s'

/-- The list operations of `nxtask_terminate`, which is never called for the running task. -/
def terminate (s : State τ) (t : τ) : Option (State τ) :=
  match s.taskState t with
  | .pending => some ({ s with pendingtasks := s.pendingtasks.erase t }.setState t .invalid)
  | .readytorun => some ({ s with readytorun := s.readytorun.erase t }.setState t .invalid)
  | .blocked w => some ((s.setWaiting w ((s.waiting w).erase t)).setState t .invalid)
  | _ => none

/-- `nxtask_exit`. The next task is locked while the exiting one is terminated from the list of
inactive tasks. -/
def taskExit (s : State τ) : Option (State τ) :=
  match s.readytorun with
  | [] => none
  | dtcb :: _ => do
    let removed ← removeReadytorun s dtcb
    let terminated ← terminate (addBlocked removed.1 dtcb .inactive) dtcb
    mergeIfPending terminated

inductive Op (τ : Type) where
  | addReadytorun (t : τ)
  | removeReadytorun (t : τ)
  | setPriority (t : τ) (p : ℕ)
  | reprioritizeRtr (t : τ) (p : ℕ)
  | block (t : τ) (w : Wait)
  | addBlocked (t : τ) (w : Wait)
  | unblock (t : τ)
  | lock
  | unlock
  | mergePending
  | terminate (t : τ)
  | exit

def step (s : State τ) : Op τ → Option (State τ)
  | .addReadytorun t => (addReadytorun s t).map Prod.fst
  | .removeReadytorun t => (removeReadytorun s t).map Prod.fst
  | .setPriority t p => setPriority s t p
  | .reprioritizeRtr t p => upReprioritizeRtr s t p
  | .block t w => upBlockTask s t w
  | .addBlocked t w => some (addBlocked s t w)
  | .unblock t => upUnblockTask s t
  | .lock => schedLock s
  | .unlock => schedUnlock s
  | .mergePending => (mergePending s).map Prod.fst
  | .terminate t => terminate s t
  | .exit => taskExit s

/-- Only the idle task runs, and no other task has been put on a list. -/
def initial (idle : τ) (priority : τ → ℕ) : State τ where
  readytorun := [idle]
  pendingtasks := []
  waiting := fun _ => []
  priority := update priority idle 0
  taskState := fun t => if t = idle then .running else .invalid
  lockcount := fun _ => 0

/-- A task is added when it is on no list, a task is removed from the list that holds it, and the
idle task stays where it is. -/
def Valid (idle : τ) (s : State τ) : Op τ → Prop
  | .addReadytorun t | .addBlocked t _ => s.taskState t = .invalid
  | .removeReadytorun t | .block t _ =>
    t ≠ idle ∧ (s.taskState t = .running ∨ s.taskState t = .readytorun)
  | .setPriority t _ => t ≠ idle
  | .reprioritizeRtr t p =>
    t ≠ idle ∧ (s.taskState t = .running ∨ s.taskState t = .readytorun) ∧
      priorityMin ≤ p ∧ p ≤ priorityMax
  | .unblock t => ∃ w, s.taskState t = .blocked w
  | .lock | .unlock | .mergePending => True
  | .terminate t => t ≠ idle ∧ s.taskState t ≠ .running ∧ s.taskState t ≠ .invalid
  | .exit => s.taskState idle ≠ .running

inductive Run (idle : τ) (condition : State τ → Op τ → Prop) : State τ → Prop where
  | init (priority : τ → ℕ) (positive : ∀ t, t ≠ idle → 0 < priority t) :
      Run idle condition (initial idle priority)
  | step {s s' : State τ} (run : Run idle condition s) (op : Op τ) (valid : Valid idle s op)
      (allowed : condition s op) (returns : step s op = some s') : Run idle condition s'

end

end NuttxRtos.Sched
