import NuttxRtos.Lib.PriorityList
import NuttxRtos.Lib.WaitCount

/-!
# POSIX message queues

The functions of `sched/mqueue` that send and receive. A call is cut where its critical section
ends: between the check for room and the insertion, between the insertion and the wake-up of a
receiver, and between the look at `nwaitnotfull` and the wake-up of a sender. Interrupt handlers run
as one step.
-/

namespace NuttxRtos.Mqueue

open Function (update)

/-- What a sender passes: the priority and the bytes. -/
structure Body where
  prio : ℕ
  data : List UInt8
  deriving DecidableEq

/-- A message on the list, with the number of messages queued before it and whether an interrupt
handler sent it. -/
structure Message where
  seq : ℕ
  irq : Bool
  body : Body
  deriving DecidableEq

/-- `struct mqueue_inode_s`. The bodies sent so far and the messages that were taken off the list,
with the task that took them, are recorded. -/
structure Queue (τ : Type) where
  msglist : List Message
  nmsgs : ℤ
  maxmsgs : ℕ
  maxmsgsize : ℕ
  nwaitnotfull : ℤ
  nwaitnotempty : ℤ
  sent : List Body
  taken : List (τ × Message)

/-- The errors with which a wait is ended from outside. -/
inductive Err where
  | eintr
  | etimedout
  | ecanceled
  deriving DecidableEq

inductive Pc (κ : Type) where
  | idle
  | sendWait (q : κ) (body : Body)
  /-- Room was seen, and the message is allocated next. -/
  | room (q : κ) (body : Body)
  /-- The message is on the list, and a receiver is woken next. -/
  | queued (q : κ)
  | receiveWait (q : κ)
  /-- The message is off the list, and is copied and freed next. -/
  | got (q : κ) (message : Message)
  /-- A waiting sender was seen, and is woken next. -/
  | waiter (q : κ)
  | deleted
  deriving DecidableEq

/-- The queues, `g_waitingformqnotempty`, `g_waitingformqnotfull`, and the fields of each TCB. -/
structure State (τ κ : Type) where
  queue : κ → Queue τ
  notempty : List τ
  notfull : List τ
  msgwaitq : τ → Option κ
  errcode : τ → Option Err
  pc : τ → Pc κ

def prioMax : ℕ := 255

/-- Assignment to a member of type `int16_t`. -/
def int16 (x : ℤ) : ℤ := x.bmod (2 ^ 16)

section

variable {τ κ : Type} [DecidableEq τ] [DecidableEq κ]

def State.setPc (s : State τ κ) (t : τ) (pc : Pc κ) : State τ κ :=
  { s with pc := update s.pc t pc }

def State.setQueue (s : State τ κ) (k : κ) (q : Queue τ) : State τ κ :=
  { s with queue := update s.queue k q }

/-- `up_block_task` on one of the wait lists, at the position of the task's priority. -/
def enlist (l : List τ) (t : τ) (pos : ℕ) : List τ := l.take pos ++ t :: l.drop pos

def verifySend (q : Queue τ) (body : Body) : Prop :=
  body.prio ≤ prioMax ∧ body.data.length ≤ q.maxmsgsize

instance (q : Queue τ) (body : Body) : Decidable (verifySend q body) :=
  inferInstanceAs (Decidable (_ ∧ _))

def waitNotFull (s : State τ κ) (t : τ) (k : κ) (body : Body) (pos : ℕ) : State τ κ :=
  ({ s with
    notfull := enlist s.notfull t pos
    msgwaitq := update s.msgwaitq t (some k)
    errcode := update s.errcode t none }.setQueue k
      { s.queue k with nwaitnotfull := (s.queue k).nwaitnotfull + 1 }).setPc t (.sendWait k body)

def waitNotEmpty (s : State τ κ) (t : τ) (k : κ) (pos : ℕ) : State τ κ :=
  ({ s with
    notempty := enlist s.notempty t pos
    msgwaitq := update s.msgwaitq t (some k)
    errcode := update s.errcode t none }.setQueue k
      { s.queue k with nwaitnotempty := (s.queue k).nwaitnotempty + 1 }).setPc t (.receiveWait k)

/-- The check for room in `nxmq_send`, `nxmq_timedsend` and the loop of `nxmq_wait_send`. -/
def checkRoom (s : State τ κ) (t : τ) (k : κ) (body : Body) (nonblock : Bool) (pos : ℕ) :
    State τ κ :=
  if (s.queue k).maxmsgs ≤ (s.queue k).nmsgs then
    if nonblock then s.setPc t .idle else waitNotFull s t k body pos
  else s.setPc t (.room k body)

def waitReceive (s : State τ κ) (t : τ) (k : κ) (nonblock : Bool) (pos : ℕ) : State τ κ :=
  match (s.queue k).msglist with
  | [] => if nonblock then s.setPc t .idle else waitNotEmpty s t k pos
  | m :: rest =>
    (s.setQueue k { s.queue k with
      msglist := rest
      nmsgs := int16 ((s.queue k).nmsgs - 1)
      taken := (t, m) :: (s.queue k).taken }).setPc t (.got k m)

def insertMsg (s : State τ κ) (k : κ) (body : Body) (irq : Bool) : State τ κ :=
  s.setQueue k { s.queue k with
    msglist := PriorityList.insert (fun m => m.body.prio) ⟨(s.queue k).sent.length, irq, body⟩
      (s.queue k).msglist
    nmsgs := int16 ((s.queue k).nmsgs + 1)
    sent := (s.queue k).sent ++ [body] }

/-- The end of `nxmq_do_send`. A search that runs off the list has no result. -/
def wakeReceiver (s : State τ κ) (k : κ) : Option (State τ κ) :=
  if 0 < (s.queue k).nwaitnotempty then
    match s.notempty.find? fun t => s.msgwaitq t = some k with
    | none => none
    | some btcb =>
      some ({ s with
        notempty := s.notempty.erase btcb
        msgwaitq := update s.msgwaitq btcb none }.setQueue k
          { s.queue k with nwaitnotempty := (s.queue k).nwaitnotempty - 1 })
  else some s

/-- The end of `nxmq_do_receive`, which has looked at `nwaitnotfull` before its critical section. -/
def wakeSender (s : State τ κ) (k : κ) : Option (State τ κ) :=
  match s.notfull.find? fun t => s.msgwaitq t = some k with
  | none => none
  | some btcb =>
    some ({ s with
      notfull := s.notfull.erase btcb
      msgwaitq := update s.msgwaitq btcb none }.setQueue k
        { s.queue k with nwaitnotfull := (s.queue k).nwaitnotfull - 1 })

def waitIrq (s : State τ κ) (t : τ) (err : Err) : Option (State τ κ) :=
  if t ∈ s.notempty then
    (s.msgwaitq t).map fun k =>
      { s with
        notempty := s.notempty.erase t
        msgwaitq := update s.msgwaitq t none
        errcode := update s.errcode t (some err) }.setQueue k
          { s.queue k with nwaitnotempty := (s.queue k).nwaitnotempty - 1 }
  else if t ∈ s.notfull then
    (s.msgwaitq t).map fun k =>
      { s with
        notfull := s.notfull.erase t
        msgwaitq := update s.msgwaitq t none
        errcode := update s.errcode t (some err) }.setQueue k
          { s.queue k with nwaitnotfull := (s.queue k).nwaitnotfull - 1 }
  else some s

/-- `nxtask_terminate` takes the task off its list and makes its state invalid, and `nxmq_recover`,
which it calls afterwards, then has nothing to do. -/
def terminate (s : State τ κ) (t : τ) : State τ κ :=
  { s with notempty := s.notempty.erase t, notfull := s.notfull.erase t }.setPc t .deleted

inductive Op (τ κ : Type) where
  | send (t : τ) (k : κ) (body : Body) (nonblock : Bool) (pos : ℕ)
  | allocFails (t : τ)
  | insert (t : τ)
  | wakeReceiver (t : τ)
  | receive (t : τ) (k : κ) (nonblock : Bool) (pos : ℕ)
  | deliver (t : τ)
  | wakeSender (t : τ)
  | resume (t : τ) (pos : ℕ)
  | irqSend (k : κ) (body : Body)
  | interrupt (t : τ) (err : Err)
  | terminate (t : τ)

def step (s : State τ κ) : Op τ κ → Option (State τ κ)
  | .send t k body nonblock pos =>
    some (if verifySend (s.queue k) body then checkRoom s t k body nonblock pos else s)
  | .allocFails t => some (s.setPc t .idle)
  | .insert t =>
    match s.pc t with
    | .room k body => some ((insertMsg s k body false).setPc t (.queued k))
    | _ => none
  | .wakeReceiver t =>
    match s.pc t with
    | .queued k => wakeReceiver (s.setPc t .idle) k
    | _ => none
  | .receive t k nonblock pos => some (waitReceive s t k nonblock pos)
  | .deliver t =>
    match s.pc t with
    | .got k _ => some (s.setPc t (if 0 < (s.queue k).nwaitnotfull then .waiter k else .idle))
    | _ => none
  | .wakeSender t =>
    match s.pc t with
    | .waiter k => wakeSender (s.setPc t .idle) k
    | _ => none
  | .resume t pos =>
    match s.pc t, s.errcode t with
    | .sendWait _ _, some _ | .receiveWait _, some _ => some (s.setPc t .idle)
    | .sendWait k body, none => some (checkRoom s t k body false pos)
    | .receiveWait k, none => some (waitReceive s t k false pos)
    | _, _ => none
  | .irqSend k body =>
    if verifySend (s.queue k) body then wakeReceiver (insertMsg s k body true) k else some s
  | .interrupt t err => waitIrq s t err
  | .terminate t => some (terminate s t)

/-- A task starts a call when it is in none, and goes on when it is not blocked. -/
def Valid (s : State τ κ) : Op τ κ → Prop
  | .send t _ _ _ _ | .receive t _ _ _ => s.pc t = .idle
  | .allocFails t | .insert t => ∃ k body, s.pc t = .room k body
  | .wakeReceiver t => ∃ k, s.pc t = .queued k
  | .deliver t => ∃ k m, s.pc t = .got k m
  | .wakeSender t => ∃ k, s.pc t = .waiter k
  | .resume t _ =>
    ((∃ k body, s.pc t = .sendWait k body) ∨ ∃ k, s.pc t = .receiveWait k) ∧
      t ∉ s.notempty ∧ t ∉ s.notfull
  | .irqSend _ _ | .interrupt _ _ | .terminate _ => True

def initial (maxmsgs maxmsgsize : κ → ℕ) : State τ κ where
  queue := fun k => ⟨[], 0, maxmsgs k, maxmsgsize k, 0, 0, [], []⟩
  notempty := []
  notfull := []
  msgwaitq := fun _ => none
  errcode := fun _ => none
  pc := fun _ => .idle

inductive Run (condition : State τ κ → Op τ κ → Prop) : State τ κ → Prop where
  | init (maxmsgs maxmsgsize : κ → ℕ) : Run condition (initial maxmsgs maxmsgsize)
  | step {s s' : State τ κ} (run : Run condition s) (op : Op τ κ) (valid : Valid s op)
      (allowed : condition s op) (returns : step s op = some s') : Run condition s'

end

end NuttxRtos.Mqueue
