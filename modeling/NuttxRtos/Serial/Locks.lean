import Mathlib.Algebra.Order.Ring.Int

/-!
# The locks of the buffers

Tasks hold `xmit.sem` and `recv.sem` while they use a buffer. `uart_open` and a close that is not the
last one take neither of them, and `uart_ioctl` does so only to drain the buffer.
-/

namespace NuttxRtos.Serial.Locks

open List Function

inductive Lock where
  | xmit
  | recv
  deriving DecidableEq

inductive Call where
  | read
  | write
  | drain
  | poll
  | close (nonblock : Bool)
  deriving DecidableEq

/-- The locks that a call takes and gives, one after the other. -/
def Call.locks : Call → List Lock
  | .read => [.recv]
  | .write | .drain | .close false => [.xmit]
  | .poll => [.xmit, .recv]
  | .close true => []

def Call.closes : Call → Bool
  | .close _ => true
  | _ => false

/-- A semaphore, with the tasks that have taken it and not given it. -/
structure Sem (τ : Type) where
  avail : ℕ := 1
  taken : List τ := []
  waiting : List τ := []

variable {τ : Type}

def Sem.semcount (sem : Sem τ) : ℤ := sem.avail - sem.waiting.length

/-- Of the waiting tasks, `w` is woken. -/
def Sem.Wakes (sem : Sem τ) (w : τ) : Prop := sem.waiting ≠ [] → w ∈ sem.waiting

/-- `pc` is the call that a task is in, with the locks that are left for it. -/
structure State (τ : Type) where
  sem : Lock → Sem τ := fun _ => {}
  pc : τ → Option (Call × List Lock) := fun _ => none

variable [DecidableEq τ]

def Sem.wait (sem : Sem τ) (t : τ) : Sem τ :=
  if 0 < sem.avail then { sem with avail := sem.avail - 1, taken := t :: sem.taken }
  else { sem with waiting := t :: sem.waiting }

def Sem.post (sem : Sem τ) (w : τ) : Sem τ :=
  if w ∈ sem.waiting then { sem with taken := w :: sem.taken, waiting := sem.waiting.erase w }
  else { sem with avail := sem.avail + 1 }

/-- `nxsem_reset` to 1. -/
def Sem.reset (sem : Sem τ) (w : τ) : Sem τ :=
  if w ∈ sem.waiting then sem.post w else { sem with avail := 1 }

def State.set (s : State τ) (l : Lock) (sem : Sem τ) : State τ := { s with sem := update s.sem l sem }

def State.goto (s : State τ) (t : τ) (pc : Option (Call × List Lock)) : State τ :=
  { s with pc := update s.pc t pc }

def uartResetSem (s : State τ) (w : Lock → τ) : State τ :=
  { s with sem := fun l => (s.sem l).reset (w l) }

/-- A call, the lock that it is at, and the locks after it. -/
abbrev Place := Call × Lock × List Lock

/-- The parts of a call; a wait that fails, a drain that times out, and a character that `uart_recvchars`
answers with a signal. -/
inductive Action (τ : Type) where
  | call (t : τ) (call : Call)
  | take (t : τ) (place : Place)
  | give (t : τ) (place : Place) (w : τ)
  | fail (t : τ) (place : Place) (canceled : Bool)
  | timeout (t : τ) (place : Place)
  | leave (t : τ) (call : Call) (w : Lock → τ)
  | signal (w : Lock → τ)

def State.At (s : State τ) (t : τ) (place : Place) : Prop :=
  s.pc t = some (place.1, place.2.1 :: place.2.2)

def Enabled (s : State τ) : Action τ → Prop
  | .call t _ => s.pc t = none
  | .take t p => s.At t p ∧ t ∉ (s.sem p.2.1).taken ++ (s.sem p.2.1).waiting
  | .give t p w => s.At t p ∧ t ∈ (s.sem p.2.1).taken ∧ (s.sem p.2.1).Wakes w
  | .fail t p _ => s.At t p ∧ t ∈ (s.sem p.2.1).waiting
  | .timeout t p => s.At t p ∧ t ∈ (s.sem p.2.1).taken ∧ (p.1 = .drain ∨ p.1 = .close false)
  | .leave t call w => s.pc t = some (call, []) ∧ ∀ l, (s.sem l).Wakes (w l)
  | .signal w => ∀ l, (s.sem l).Wakes (w l)

/-- A wait that fails ends the call, or only the drain in it. `uart_poll` waits again after a signal; if
it is cancelled it goes on as if it had the lock. -/
def step (s : State τ) : Action τ → State τ
  | .call t call => s.goto t (some (call, call.locks))
  | .take t (_, l, _) => s.set l ((s.sem l).wait t)
  | .give t (call, l, rest) w =>
    (s.set l (Sem.post { s.sem l with taken := (s.sem l).taken.erase t } w)).goto t (some (call, rest))
  | .fail t (call, l, _) canceled =>
    let sem := { s.sem l with waiting := (s.sem l).waiting.erase t }
    if call ≠ .poll then (s.set l sem).goto t (some (call, []))
    else if canceled then s.set l { sem with taken := t :: sem.taken }
    else s.set l sem
  | .timeout t (call, _) => s.goto t (some (call, []))
  | .leave t call w => (if call.closes then uartResetSem s w else s).goto t none
  | .signal w => uartResetSem s w

inductive Run (ok : State τ → Action τ → Prop) : State τ → Prop where
  | init : Run ok {}
  | step {s : State τ} {a : Action τ} : Run ok s → Enabled s a → ok s a → Run ok (step s a)

def Unused (s : State τ) : Prop := ∀ l, (s.sem l).taken ++ (s.sem l).waiting = []

/-- No drain times out, no wait of `uart_poll` is cancelled, and the locks are reset only when no task
has one or waits for it. -/
def Regular (s : State τ) : Action τ → Prop
  | .timeout _ _ => False
  | .fail _ (call, _) canceled => call = .poll → canceled = false
  | .leave _ call _ => call.closes = true → Unused s
  | .signal _ => Unused s
  | _ => True

/-- A lock is free or taken once, and the tasks that have it or wait for it are at the place `here`. -/
structure Good (sem : Sem τ) (here : τ → Prop) : Prop where
  once : sem.avail + sem.taken.length = 1
  waits : sem.waiting ≠ [] → sem.avail = 0
  nodup : (sem.taken ++ sem.waiting).Nodup
  place : ∀ t ∈ sem.taken ++ sem.waiting, here t

def State.AtLock (s : State τ) (l : Lock) (t : τ) : Prop := ∃ call rest, s.At t (call, l, rest)

def Inv (s : State τ) : Prop := ∀ l, Good (s.sem l) (s.AtLock l)

section

variable {sem : Sem τ} {here there : τ → Prop} {t w : τ}

variable (good : Good sem here)
include good

omit [DecidableEq τ] in
theorem Good.mono (sub : ∀ t, here t → there t) : Good sem there :=
  { good with place := fun t member => sub t (good.place t member) }

theorem Good.wait (fresh : t ∉ sem.taken ++ sem.waiting) (at_t : here t) :
    Good (sem.wait t) here := by
  obtain ⟨once, waits, nodup, place⟩ := good
  unfold Sem.wait
  split <;> constructor <;> grind

theorem Good.give (has : t ∈ sem.taken) (wakes : sem.Wakes w) :
    Good (Sem.post { sem with taken := sem.taken.erase t } w) fun u => here u ∧ u ≠ t := by
  obtain ⟨once, waits, nodup, place⟩ := good
  obtain ⟨avail, taken, waiting⟩ := sem
  obtain ⟨u, rfl⟩ : ∃ u, taken = [u] := by grind [length_eq_one_iff]
  unfold Sem.post Sem.Wakes at *
  split <;> constructor <;> grind

theorem Good.fail (waits : t ∈ sem.waiting) :
    Good { sem with waiting := sem.waiting.erase t } fun u => here u ∧ u ≠ t := by
  obtain ⟨once, none, nodup, place⟩ := good
  constructor <;> grind

theorem Good.reset (unused : sem.taken ++ sem.waiting = []) : sem.reset w = sem := by
  obtain ⟨avail, taken, waiting⟩ := sem
  obtain ⟨rfl, rfl⟩ := append_eq_nil_iff.1 unused
  have once := good.once
  simp_all [Sem.reset]

end

variable {s : State τ} {t : τ} {l : Lock} {sem : Sem τ} {pc : Option (Call × List Lock)}

omit [DecidableEq τ] in
theorem Inv.apart (inv : Inv s) (away : ¬ s.AtLock l t) :
    Good (s.sem l) fun u => s.AtLock l u ∧ u ≠ t :=
  (inv l).mono fun _ at_u => ⟨at_u, fun same => away (same ▸ at_u)⟩

theorem Inv.goto (good : ∀ l, Good (s.sem l) fun u => s.AtLock l u ∧ u ≠ t) :
    Inv (s.goto t pc) :=
  fun l => (good l).mono fun _ ⟨⟨call, rest, at_u⟩, apart⟩ =>
    ⟨call, rest, (update_of_ne apart ..).trans at_u⟩

omit [DecidableEq τ] in
theorem Inv.set (inv : Inv s) (good : Good sem (s.AtLock l)) : Inv (s.set l sem) :=
  (forall_update_iff s.sem fun k sem => Good sem (s.AtLock k)).2 ⟨good, fun k _ => inv k⟩

theorem Inv.leave (inv : Inv s) {call : Call} {rest : List Lock} (at_t : s.At t (call, l, rest))
    (good : Good sem fun u => s.AtLock l u ∧ u ≠ t) : Inv ((s.set l sem).goto t pc) := by
  refine .goto ?_
  refine (forall_update_iff s.sem fun k sem => Good sem fun u => s.AtLock k u ∧ u ≠ t).2
    ⟨good, fun k other => inv.apart fun ⟨_, _, at_k⟩ => ?_⟩
  simp [State.At, show s.pc t = _ from at_t, Ne.symm other] at at_k

theorem Inv.reset (inv : Inv s) (unused : Unused s) (w : Lock → τ) : uartResetSem s w = s := by
  have same : (fun l => (s.sem l).reset (w l)) = s.sem := funext fun l => (inv l).reset (unused l)
  rw [uartResetSem, same]

theorem Inv.step (inv : Inv s) {a : Action τ} (enabled : Enabled s a) (regular : Regular s a) :
    Inv (step s a) := by
  cases a with
  | call t call =>
    exact .goto fun l => inv.apart fun ⟨_, _, at_l⟩ => by simp_all [Enabled, State.At]
  | take t place => exact inv.set ((inv place.2.1).wait enabled.2 ⟨_, _, enabled.1⟩)
  | give t place w =>
    obtain ⟨at_t, has, wakes⟩ := enabled
    exact inv.leave at_t ((inv place.2.1).give has wakes)
  | fail t place canceled =>
    obtain ⟨at_t, waits⟩ := enabled
    have good := (inv place.2.1).fail waits
    simp only [Locks.step]
    split
    · exact inv.leave at_t good
    next polls =>
    rw [regular (not_not.1 polls), if_neg Bool.false_ne_true]
    exact inv.set (good.mono fun _ => And.left)
  | timeout => exact regular.elim
  | leave t call w =>
    have same : (if call.closes then uartResetSem s w else s) = s := by
      split
      · next closes => exact inv.reset (regular closes) w
      · rfl
    rw [Locks.step, same]
    exact .goto fun l => inv.apart fun ⟨_, _, at_l⟩ => by simp_all [Enabled, State.At]
  | signal w =>
    rw [Locks.step, inv.reset regular]
    exact inv

theorem Run.inv (run : Run Regular s) : Inv s := by
  induction run with
  | init => exact fun l => ⟨rfl, by simp, by simp, by simp⟩
  | step _ enabled regular inv => exact inv.step enabled regular

/-- In a regular run each lock is a mutex: it counts to one at most, one task at most has it, and a
task outside of a call has none. -/
theorem locks_exclusive (run : Run Regular s) (l : Lock) :
    (s.sem l).semcount ≤ 1 ∧ (s.sem l).taken.length ≤ 1 ∧ ∀ t ∈ (s.sem l).taken, s.pc t ≠ none := by
  obtain ⟨once, waits, nodup, place⟩ := run.inv l
  refine ⟨by unfold Sem.semcount; omega, by omega, fun t has outside => ?_⟩
  obtain ⟨call, rest, at_t⟩ := place t (mem_append_left _ has)
  rw [State.At, outside] at at_t
  cases at_t

/-- A task writes while another one waits for the lock. -/
theorem locks_exclusive_writers :
    ∃ s : State Bool, Run Regular s ∧ (s.sem .xmit).waiting = [true] ∧
      (s.sem .xmit).taken.length ≤ 1 := by
  have called : Run Regular (_ : State Bool) :=
    (Run.init.step (a := .call false .write) rfl trivial).step (a := .call true .write) rfl trivial
  have taken := called.step (a := .take false (.write, .xmit, [])) ⟨rfl, by decide⟩ trivial
  have waits := taken.step (a := .take true (.write, .xmit, [])) ⟨rfl, by decide⟩ trivial
  exact ⟨_, waits, rfl, (locks_exclusive waits .xmit).2.1⟩

/-- A drain that times out keeps the lock. The character of a signal lets a second task take it. A
cancelled wait of `uart_poll` gives the lock of another task. -/
theorem locks_broken :
    (∃ s : State Bool, Run (fun _ _ => True) s ∧ s.pc false = none ∧ false ∈ (s.sem .xmit).taken) ∧
    (∃ s : State Bool, Run (fun _ _ => True) s ∧ (s.sem .xmit).taken = [true, false]) ∧
    ∃ s : State Bool, Run (fun _ _ => True) s ∧ (s.sem .xmit).semcount = 2 := by
  have start : Run (fun _ _ => True) ({} : State Bool) := .init
  have drains := (start.step (a := .call false .drain) rfl trivial).step
    (a := .take false (.drain, .xmit, [])) ⟨rfl, by decide⟩ trivial
  have late := drains.step (a := .timeout false (.drain, .xmit, [])) ⟨rfl, .head _, .inl rfl⟩ trivial
  have back := late.step (a := .leave false .drain fun _ => false)
    ⟨rfl, by rintro (_ | _) some <;> exact absurd rfl some⟩ trivial
  have writes := (start.step (a := .call false .write) rfl trivial).step
    (a := .take false (.write, .xmit, [])) ⟨rfl, by decide⟩ trivial
  have reset := writes.step (a := .signal fun _ => false)
    (by rintro (_ | _) some <;> exact absurd rfl some) trivial
  have second := (reset.step (a := .call true .write) rfl trivial).step
    (a := .take true (.write, .xmit, [])) ⟨rfl, by decide⟩ trivial
  have waits := (writes.step (a := .call true .poll) rfl trivial).step
    (a := .take true (.poll, .xmit, [.recv])) ⟨rfl, by decide⟩ trivial
  have canceled := waits.step (a := .fail true (.poll, .xmit, [.recv]) true) ⟨rfl, .head _⟩ trivial
  have given := canceled.step (a := .give true (.poll, .xmit, [.recv]) false)
    ⟨rfl, .head _, fun some => absurd rfl some⟩ trivial
  have twice := given.step (a := .give false (.write, .xmit, []) false)
    ⟨rfl, .head _, fun some => absurd rfl some⟩ trivial
  exact ⟨⟨_, back, rfl, .head _⟩, ⟨_, second, rfl⟩, _, twice, rfl⟩

end NuttxRtos.Serial.Locks
