import NuttxRtos.Lib.PendingMax
import NuttxRtos.Semaphore.HolderRuns

/-!
# Priority inheritance

Semaphores that are used as locks, with the priorities that `sched/semaphore/sem_holder.c` boosts
and restores. There are always records and pending priorities enough. The records of a semaphore are
the list of the tasks in them. `nxsem_post` may be switched out where it lowers the priority of the
caller: what is left of it is a step of its own.
-/

namespace NuttxRtos.Semaphore.Inheritance

open PendingMax

/-- The semaphores, the records with their `counts`, and `base_priority`, `sched_priority` and
`pend_reprios` of every task. A task in `nxsem_post` is recorded with the semaphore and the
priority, if any, that it still has to make the base priority. -/
structure State (τ κ : Type) where
  sem : Semaphore.State τ κ
  holders : κ → List τ
  counts : τ → κ → ℤ
  base : τ → ℕ
  sched : τ → ℕ
  pend : τ → List ℕ
  posting : List (τ × κ × Option ℕ)

section

variable {τ κ : Type} [DecidableEq τ] [DecidableEq κ]

/-- The place of a task in a list that is ordered by priority, behind those of the same priority. -/
def place (sched : τ → ℕ) (t : τ) (l : List τ) : ℕ :=
    (l.takeWhile fun u => sched t ≤ sched u).length

/-- `nxsched_set_priority`. A task that waits is moved to its new place. -/
def setPriority (s : State τ κ) (t : τ) (p : ℕ) : State τ κ :=
  let sched := Function.update s.sched t p
  let rest := s.sem.waiting.erase t
  let pos := place sched t rest
  { s with
    sched := sched
    sem := { s.sem with
      waiting := if t ∈ s.sem.waiting then rest.take pos ++ t :: rest.drop pos
        else s.sem.waiting } }

def setPend (s : State τ κ) (t : τ) (pend : List ℕ) : State τ κ :=
  { s with pend := Function.update s.pend t pend }

/-- The end of `nxsched_reprioritize`, after `nxsched_set_priority`. -/
def setBase (s : State τ κ) (t : τ) (p : ℕ) : State τ κ :=
  { setPend s t [] with base := Function.update s.base t p }

def reprioritize (s : State τ κ) (t : τ) (p : ℕ) : State τ κ := setBase (setPriority s t p) t p

/-- `nxsem_boostholderprio`; `p` is the priority of the task that starts to wait. -/
def boostholderprio (p : ℕ) (s : State τ κ) (htcb : τ) : State τ κ :=
  if s.base htcb < p then
    if s.sched htcb < p then
      let pend := if s.base htcb < s.sched htcb then s.pend htcb ++ [s.sched htcb] else s.pend htcb
      setPriority (setPend s htcb pend) htcb p
    else setPend s htcb (s.pend htcb ++ [p])
  else s

/-- `nxsem_restoreholderprio` for a living holder; `p` is the priority of the task that waits no
more. The end of a call of `nxsched_reprioritize` is left over. -/
def restorePriority (s : State τ κ) (htcb : τ) (p : ℕ) : State τ κ × Option ℕ :=
  if s.sched htcb ≠ s.base htcb then
    match s.pend htcb with
    | [] => (setPriority s htcb (s.base htcb), some (s.base htcb))
    | first :: others =>
      if s.sched htcb ≤ p then
        let (rpriority, j) := highestFrom first 0 1 others
        (setPriority (setPend s htcb (moveLast (s.pend htcb) j)) htcb rpriority, none)
      else
        match (s.pend htcb).findIdx? (· = p) with
        | none => (s, none)
        | some i => (setPend s htcb (moveLast (s.pend htcb) i), none)
  else (s, none)

def finishRestore (s : State τ κ) (t : τ) : Option ℕ → State τ κ
  | none => s
  | some p => setBase s t p

/-- `nxsem_restoreholderprio` for a holder other than the running task. -/
def restoreholderprio (stcb : τ) (s : State τ κ) (htcb : τ) : State τ κ :=
  let (s', left) := restorePriority s htcb (s.sched stcb)
  finishRestore s' htcb left

def addHolder (s : State τ κ) (k : κ) (t : τ) : State τ κ :=
  { s with
    holders := if t ∈ s.holders k then s.holders
      else Function.update s.holders k (t :: s.holders k)
    counts := Holders.bumpNet s.counts t k 1 }

def wait (s : State τ κ) (t : τ) (k : κ) : State τ κ :=
  if 0 < s.sem.semcount k then addHolder { s with sem := Semaphore.wait s.sem t k 0 } k t
  else
    let s' := (s.holders k).foldl (boostholderprio (s.sched t)) s
    { s' with sem := Semaphore.wait s'.sem t k (place s'.sched t s'.sem.waiting) }

def trywait (s : State τ κ) (t : τ) (k : κ) : State τ κ :=
  { s with sem := Semaphore.trywait s.sem t k }

/-- `nxsem_restore_baseprio_task` up to `nxsem_findandfreeholder`: first the other holders, then the
running task. -/
def restoreBaseprio (s : State τ κ) (t : τ) (k : κ) (stcb : τ) : State τ κ × Option ℕ :=
  let s' := ((s.holders k).filter (· ≠ t)).foldl (restoreholderprio stcb) s
  restorePriority s' t (s'.sched stcb)

/-- `nxsem_post` by a task that holds a count, up to the place where its own priority has been
restored. -/
def post (s : State τ κ) (t : τ) (k : κ) : State τ κ :=
  if semValueMax ≤ s.sem.semcount k then s
  else
    let s' := { s with
      sem := Semaphore.post s.sem k
      counts := Holders.bumpNet s.counts t k (-1) }
    match Holders.receiver s.sem k with
    | none => { s' with posting := (t, k, none) :: s.posting }
    | some stcb =>
      let (s', left) := restoreBaseprio (addHolder s' k stcb) t k stcb
      { s' with posting := (t, k, left) :: s.posting }

/-- The end of `nxsem_post`: of `nxsched_reprioritize`, if it was called, and
`nxsem_findandfreeholder`. -/
def postEnd (s : State τ κ) (t : τ) (k : κ) (left : Option ℕ) : State τ κ :=
  let s' := finishRestore s t left
  { s' with
    holders := if s.counts t k ≤ 0 then Function.update s.holders k ((s.holders k).erase t)
      else s.holders
    posting := s.posting.erase (t, k, left) }

/-- `nxsem_canceled` for the task `w`, which waits for the semaphore. -/
def canceled (s : State τ κ) (w : τ) (k : κ) : State τ κ :=
  (s.holders k).foldl (restoreholderprio w) s

/-- `nxsem_wait_irq`. It is switched out after `nxsem_canceled` if that lowers the priority of the
caller. -/
def waitIrq (s : State τ κ) (w : τ) (switched : Bool) : Option (State τ κ) :=
  if w ∈ s.sem.waiting then
    (s.sem.waitsem w).map fun k =>
      let s' := canceled s w k
      if switched then { s' with sem := { s'.sem with cancelling := (w, k) :: s'.sem.cancelling } }
      else { s' with sem := Semaphore.cancelFinish s'.sem w k }
  else some s

inductive PriorityOp (τ κ : Type) where
  | wait (t : τ) (k : κ)
  | trywait (t : τ) (k : κ)
  | post (t : τ) (k : κ)
  | postEnd (t : τ) (k : κ) (left : Option ℕ)
  | waitIrq (w : τ) (switched : Bool)
  | cancelFinish (w : τ) (k : κ)
  | reprioritize (t : τ) (p : ℕ)

def step (s : State τ κ) : PriorityOp τ κ → Option (State τ κ)
  | .wait t k => some (wait s t k)
  | .trywait t k => some (trywait s t k)
  | .post t k => some (post s t k)
  | .postEnd t k left => some (postEnd s t k left)
  | .waitIrq w switched => waitIrq s w switched
  | .cancelFinish w k => some { s with sem := Semaphore.cancelFinish s.sem w k }
  | .reprioritize t p => some (reprioritize s t p)

/-- The task is neither blocked nor switched out in `nxsem_post`. -/
def Active (s : State τ κ) (t : τ) : Prop := t ∉ s.sem.waiting ∧ ∀ p ∈ s.posting, p.1 ≠ t

/-- Only a task that holds a count posts. -/
def Valid (s : State τ κ) : PriorityOp τ κ → Prop
  | .wait t _ | .trywait t _ => Active s t
  | .post t k => Active s t ∧ 0 < s.counts t k
  | .postEnd t k left => (t, k, left) ∈ s.posting
  | .cancelFinish w k => (w, k) ∈ s.sem.cancelling
  | .waitIrq _ _ | .reprioritize _ _ => True

/-- Locks that nobody holds, and tasks at their base priorities. -/
def initial (priority : τ → ℕ) : State τ κ where
  sem := initialState fun _ => 1
  holders := fun _ => []
  counts := fun _ _ => 0
  base := priority
  sched := priority
  pend := fun _ => []
  posting := []

inductive Run (condition : State τ κ → PriorityOp τ κ → Prop) : State τ κ → Prop where
  | init (priority : τ → ℕ) : Run condition (initial priority)
  | step {s s' : State τ κ} (run : Run condition s) (op : PriorityOp τ κ) (valid : Valid s op)
      (allowed : condition s op) (returns : step s op = some s') : Run condition s'

def Waits (s : State τ κ) (w : τ) (k : κ) : Prop := w ∈ s.sem.waiting ∧ s.sem.waitsem w = some k

/-- The priority is the highest of the base priority and the priorities of the tasks that wait for a
semaphore that the task holds. -/
structure Exact (s : State τ κ) (t : τ) : Prop where
  base_le : s.base t ≤ s.sched t
  waiter_le : ∀ w k, Waits s w k → 0 < s.counts t k → s.sched w ≤ s.sched t
  attained : s.sched t = s.base t ∨ ∃ w k, Waits s w k ∧ 0 < s.counts t k ∧ s.sched w = s.sched t

/-- What a waiting task contributed can be taken back: the holder is not boosted, or has pending
priorities, or the priority of the waiting task is above its base priority. -/
def Restorable (s : State τ κ) (htcb w : τ) : Prop :=
  s.sched htcb = s.base htcb ∨ s.pend htcb ≠ [] ∨ s.base htcb < s.sched w

/-- A semaphore has one waiting task at most. A task that holds a semaphore somebody waits for does
not wait, and nobody waits for one that a waiting task holds, or that a task in `nxsem_post` has a
record for. What a waiting task contributed can be taken back when its wait ends, and
`nxsem_wait_irq` is not switched out. No count is taken by `nxsem_trywait`. A task is reprioritized
while it does not wait, nobody waits for what it holds and it is not in `nxsem_post`. -/
def Regular (s : State τ κ) : PriorityOp τ κ → Prop
  | .wait t k => 0 < s.sem.semcount k ∨
      (∀ w, ¬ Waits s w k) ∧ (∀ j w, 0 < s.counts t j → ¬ Waits s w j) ∧
      ∀ htcb ∈ s.holders k, htcb ≠ t ∧ Active s htcb
  | .trywait _ k => ¬ 0 < s.sem.semcount k
  | .post t k => ∀ w, Waits s w k → Restorable s t w
  | .waitIrq w switched => switched = false ∧
      ∀ k, Waits s w k → ∀ htcb ∈ s.holders k, Restorable s htcb w
  | .reprioritize t _ => Active s t ∧ ∀ j w, 0 < s.counts t j → ¬ Waits s w j
  | .postEnd _ _ _ | .cancelFinish _ _ => True

end

end NuttxRtos.Semaphore.Inheritance
