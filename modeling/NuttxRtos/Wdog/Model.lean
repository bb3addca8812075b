import NuttxRtos.Lib.Word

/-!
# The watchdog timers

The functions of `sched/wdog` in a build without `CONFIG_SCHED_TICKLESS`. The active list
`g_wdactivelist` is a list of watchdogs with their `lag`, the ticks behind the watchdog before; the
arithmetic on `int32_t` is checked, so that a run which overflows has no result. The calls that a
watchdog function makes may depend on everything that happened before.
-/

namespace NuttxRtos.Watchdog

open CheckedInt

variable {α : Type} [DecidableEq α]

/-- The members of `struct wdog_s` that the timing depends on; `id` stands for its address. -/
structure Wdog (α : Type) where
  id : α
  lag : ℤ
  deriving DecidableEq

inductive Event (α : Type) where
  | start (wdog : α) (delay : ℕ)
  | cancel (wdog : α)
  | tick
  | fire (wdog : α)
  deriving DecidableEq

/-- Calls of clients and of watchdog functions. -/
inductive Call (α : Type) where
  | start (wdog : α) (delay : ℤ)
  | cancel (wdog : α)
  deriving DecidableEq

/-- The active list, the `WDOGF_ACTIVE` flags, and the events so far, the last one first. -/
structure State (α : Type) where
  list : List (Wdog α)
  active : α → Bool
  history : List (Event α)

/-! ## Cancelling -/

/-- The list behind a watchdog that leaves it: the next one inherits the remaining ticks. -/
def inherit (lag : ℤ) : List (Wdog α) → Option (List (Wdog α))
  | [] => some []
  | next :: rest => do
      let sum ← int32 (next.lag + lag)
      return { next with lag := sum } :: rest

/-- The search of `wd_cancel`, and the removal. A watchdog that is active and not in the list is an
error. -/
def cancelLoop (wdog : α) : List (Wdog α) → Option (List (Wdog α))
  | [] => none
  | curr :: rest =>
    if curr.id = wdog then inherit curr.lag rest
    else (cancelLoop wdog rest).map (curr :: ·)

def wdCancel (s : State α) (wdog : α) : Option (State α) :=
  if s.active wdog then do
    let list ← cancelLoop wdog s.list
    return { s with list := list, active := Function.update s.active wdog false }
  else some s

/-! ## Starting -/

/-- A place in the list: the watchdogs before `curr` and behind it, and the time `now` of `curr`. -/
structure Place (α : Type) where
  before : List (Wdog α)
  curr : Wdog α
  rest : List (Wdog α)
  now : ℤ

def advancePositive (before : List (Wdog α)) (now : ℤ) (curr : Wdog α) :
    List (Wdog α) → Option (Place α)
  | [] => do
      let now ← int32 (now + curr.lag)
      return ⟨before, curr, [], now⟩
  | next :: rest => do
      let now ← int32 (now + curr.lag)
      if now < 0 then advancePositive (before ++ [curr]) now next rest
      else return ⟨before, curr, next :: rest, now⟩

def advanceShorter (delay : ℤ) (before : List (Wdog α)) (now : ℤ) (curr : Wdog α) :
    List (Wdog α) → Option (Place α)
  | [] => some ⟨before, curr, [], now⟩
  | next :: rest =>
    if now ≤ delay then do
      let now ← int32 (now + next.lag)
      advanceShorter delay (before ++ [curr]) now next rest
    else some ⟨before, curr, next :: rest, now⟩

def insertAt (wdog : α) (delay : ℤ) (p : Place α) : Option (List (Wdog α)) :=
  if delay < p.now then do
    let start ← int32 (p.now - p.curr.lag)
    let delay ← int32 (delay - start)
    let lag ← int32 (p.curr.lag - delay)
    return p.before ++ ⟨wdog, delay⟩ :: { p.curr with lag := lag } :: p.rest
  else do
    let delay ← int32 (delay - p.now)
    match p.rest with
    | [] => return p.before ++ [p.curr, ⟨wdog, delay⟩]
    | next :: rest =>
      let lag ← int32 (next.lag - delay)
      return p.before ++ p.curr :: ⟨wdog, delay⟩ :: { next with lag := lag } :: rest

/-- `delay + 1`, forced into the range of `int32_t`. -/
def startDelay (delay : ℤ) : Option ℤ :=
  if delay ≤ 0 then some 1
  else do
    let delay ← int32 (delay + 1)
    if delay ≤ 0 then int32 (delay - 1) else some delay

/-- The queue after the insertion of `wdog`. -/
def enqueue (wdog : α) (delay : ℤ) : List (Wdog α) → Option (List (Wdog α))
  | [] => some [⟨wdog, delay⟩]
  | head :: rest => do
      let p ← advancePositive [] 0 head rest
      let p ← advanceShorter delay p.before p.now p.curr p.rest
      insertAt wdog delay p

/-- `wd_start`; a negative delay is refused. -/
def wdStart (s : State α) (wdog : α) (delay : ℤ) : Option (State α) :=
  if delay < 0 then some s
  else do
    let s ← (if s.active wdog then wdCancel s wdog else some s)
    let ticks ← startDelay delay
    let list ← enqueue wdog ticks s.list
    return { list := list, active := Function.update s.active wdog true,
             history := .start wdog delay.toNat :: s.history }

def call (s : State α) : Call α → Option (State α)
  | .start wdog delay => wdStart s wdog delay
  | .cancel wdog => (wdCancel s wdog).map fun s => { s with history := .cancel wdog :: s.history }

/-! ## The timer interrupt -/

/-- `wd_expiration`: run the watchdogs at the head of the list that are due. After `history` a
watchdog function makes the calls `func history`. -/
def wdExpiration (func : List (Event α) → List (Call α)) : ℕ → State α → Option (State α)
  | 0, _ => none
  | fuel + 1, s =>
    match s.list with
    | [] => some s
    | wdog :: rest =>
      if wdog.lag ≤ 0 then do
        let rest ← inherit wdog.lag rest
        let history := .fire wdog.id :: s.history
        let s : State α := ⟨rest, Function.update s.active wdog.id false, history⟩
        let s ← (func history).foldlM call s
        wdExpiration func fuel s
      else some s

/-- `wd_timer`. Only the watchdogs that are in the list now can be due, so the loop runs at most
once for each of them. -/
def wdTimer (func : List (Event α) → List (Call α)) (s : State α) : Option (State α) :=
  match s.list with
  | [] => some { s with history := .tick :: s.history }
  | head :: rest => do
      let lag ← int32 (head.lag - 1)
      wdExpiration func (rest.length + 2)
        { s with list := { head with lag := lag } :: rest, history := .tick :: s.history }

def gettimeLoop (wdog : α) : ℤ → List (Wdog α) → Option ℤ
  | _, [] => some 0
  | delay, curr :: rest => do
      let delay ← int32 (delay + curr.lag)
      if curr.id = wdog then return delay else gettimeLoop wdog delay rest

def wdGettime (s : State α) (wdog : α) : Option ℤ :=
  if s.active wdog then gettimeLoop wdog 0 s.list else some 0

end NuttxRtos.Watchdog
