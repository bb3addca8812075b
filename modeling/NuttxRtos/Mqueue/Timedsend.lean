import NuttxRtos.Mqueue.Model

/-!
# The resources of `nxmq_timedsend`

What a call does to the scheduler lock, the cancellation points, the watchdog and the message of its
caller. How the functions that it calls end, and what the task finds whenever it is woken, is given.
-/

namespace NuttxRtos.Mqueue.Timedsend

inductive Errno where
  | einval
  | eperm
  | emsgsize
  | enomem
  | eagain
  | ended (err : Err)
  deriving DecidableEq

/-- Where the pre-allocated message is. -/
inductive Place where
  | pool
  | caller
  | queue
  deriving DecidableEq

/-- `rtcb->waitdog` is null or a watchdog, which is active or not. -/
structure Resources where
  lockcount : ℕ
  cpcount : ℕ
  waitdog : Option Bool
  message : Place
  deriving DecidableEq

/-- The results of `nxmq_verify_send`, `nxmq_alloc_msg`, `wd_create`, `clock_abstime2ticks` and
`check_cancellation_point`, whether the queue is full when it is looked at and again after each
wake-up with its `errcode`, and whether a cancellation is pending at the end. -/
structure Call where
  verify : Option Errno
  allocated : Bool
  full : Bool
  validTime : Bool
  created : Bool
  ticks : Except Errno ℤ
  canceled : Bool
  stillFull : Bool
  nonblock : Bool
  wakeups : List (Option Err × Bool)
  pending : Bool

/-- The loop of `nxmq_wait_send`; a task that is not woken does not return. -/
def waitLoop : List (Option Err × Bool) → Option (Option Errno)
  | [] => none
  | (some err, _) :: _ => some (some (.ended err))
  | (none, true) :: wakeups => waitLoop wakeups
  | (none, false) :: _ => some none

def nxmqWaitSend (call : Call) : Option (Option Errno) :=
  if call.canceled then some (some (.ended .ecanceled))
  else if call.stillFull then if call.nonblock then some (some .eagain) else waitLoop call.wakeups
  else some none

/-- A thread that leaves its outermost cancellation point with a cancellation pending exits. -/
def leaveCancellationPoint (pending : Bool) (r : Resources) : Option Resources :=
  if r.cpcount = 1 ∧ pending then none else some { r with cpcount := r.cpcount - 1 }

/-- The label `errout_with_mqmsg`. -/
def errout (r : Resources) (err : Errno) : Option (Option Errno × Resources) :=
  some (some err, { r with message := .pool, lockcount := r.lockcount - 1 })

/-- From `wd_create` on. -/
def timedWait (call : Call) (r : Resources) : Option (Option Errno × Resources) :=
  match call.ticks with
  | .error err => errout { r with waitdog := none } err
  | .ok ticks =>
    if ticks ≤ 0 then errout { r with waitdog := none } (.ended .etimedout)
    else
      let r := { r with waitdog := some true }
      match nxmqWaitSend call with
      | none => none
      | some (some err) => errout { r with waitdog := none } err
      | some none =>
        let r := { r with message := .queue, lockcount := r.lockcount - 1, waitdog := none }
        (leaveCancellationPoint call.pending r).map (none, ·)

/-- The result of a call that returns, where `none` is `OK`. -/
def nxmqTimedsend (call : Call) (r : Resources) : Option (Option Errno × Resources) :=
  match call.verify with
  | some err => some (some err, r)
  | none =>
    if !call.allocated then some (some .enomem, r)
    else
      let r := { r with message := .caller, lockcount := r.lockcount + 1 }
      if !call.full then some (none, { r with message := .queue, lockcount := r.lockcount - 1 })
      else if !call.validTime then errout r .einval
      else if !call.created then errout r .einval
      else timedWait call { r with waitdog := some false }

def entry (lockcount cpcount : ℕ) : Resources := ⟨lockcount, cpcount, none, .pool⟩

/-- All is as on entry, but the message is on the queue if the result is `OK`. -/
def Balanced (lockcount cpcount : ℕ) (ret : Option Errno × Resources) : Prop :=
  ret.2 = { entry lockcount cpcount with message := if ret.1 = none then .queue else .pool }

/-- The message is sent after a wait. -/
def WaitsAndSends (call : Call) : Prop :=
  call.verify = none ∧ call.allocated ∧ call.full ∧ call.validTime ∧ call.created ∧
    (∃ ticks > 0, call.ticks = .ok ticks) ∧ nxmqWaitSend call = some none

/-- The way that waits and then sends leaves a cancellation point that it has not entered. On every
other way all is balanced. -/
theorem timedsend_balanced_iff (lockcount cpcount : ℕ) (call : Call) :
    (∀ ret, nxmqTimedsend call (entry lockcount cpcount) = some ret →
        Balanced lockcount cpcount ret) ↔
      (WaitsAndSends call → cpcount = 0 ∨ cpcount = 1 ∧ call.pending) := by
  by_cases sends : WaitsAndSends call
  · obtain ⟨verify, allocated, full, validTime, created, ⟨ticks, positive, same⟩, waits⟩ := id sends
    have way : nxmqTimedsend call (entry lockcount cpcount) = (leaveCancellationPoint call.pending
        { entry lockcount cpcount with message := .queue }).map (none, ·) := by
      simp [nxmqTimedsend, timedWait, entry, verify, allocated, full, validTime, created, same,
        Int.not_le.2 positive, waits]
    rw [way, leaveCancellationPoint]
    by_cases exits : cpcount = 1 ∧ call.pending = true
    · simp [entry, exits]
    · simp only [entry, exits, if_false, Option.map_some, Option.some.injEq, forall_eq', Balanced,
        if_true, Resources.mk.injEq, sends, or_false, true_and, and_true, forall_const]
      omega
  refine iff_of_true (fun ret returns => ?_) fun waits => absurd waits sends
  unfold nxmqTimedsend timedWait at returns
  -- the ways out before the wait
  iterate 7
    split at returns
    · cases returns
      rfl
  split at returns
  · cases returns
  · cases returns
    rfl
  refine absurd ?_ sends
  simp_all [WaitsAndSends]

/-- A send that waits for room inside one cancellation point. -/
def waitingCall : Call :=
  ⟨none, true, true, true, true, .ok 10, false, true, false, [(none, false)], false⟩

theorem cancellation_point_left :
    nxmqTimedsend waitingCall (entry 0 1) = some (none, ⟨0, 0, none, .queue⟩) ∧
      ¬ Balanced 0 1 (none, ⟨0, 0, none, .queue⟩) := by
  unfold Balanced
  decide

end NuttxRtos.Mqueue.Timedsend
