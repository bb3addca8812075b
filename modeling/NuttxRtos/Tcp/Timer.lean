import Mathlib.Algebra.Order.Ring.Int

/-!
# The retransmission timer

The estimate that it is loaded with, and how it is counted down.
-/

namespace NuttxRtos.Tcp.Timer

open List

/-! ## The estimate -/

structure Rtt where
  sa : ℤ
  sv : ℤ
  rto : ℤ
deriving DecidableEq

/-- The update of `tcp_input` for an acknowledgment, with the conversions to `signed char` and
`uint8_t` as parameters. -/
def estimate {m : Type → Type} [Monad m] (schar uint8 : ℤ → m ℤ) (s : Rtt) (timer : ℤ) :
    m Rtt := do
  let delta ← schar (s.rto - timer)
  let delta ← schar (delta - s.sa / 8)
  let sa ← uint8 (s.sa + delta)
  let delta ← schar (if delta < 0 then -delta else delta)
  let delta ← schar (delta - s.sv / 4)
  let sv ← uint8 (s.sv + delta)
  let rto ← uint8 (sa / 8 + sv)
  return ⟨sa, sv, rto⟩

/-- The conversions wrap around. -/
def update (s : Rtt) (timer : ℤ) : Rtt :=
  (estimate (fun x => (pure (x.bmod 256) : Id ℤ)) (fun x => pure (x % 256)) s timer).run

def fit (low high x : ℤ) : Option ℤ := if low ≤ x ∧ x < high then some x else none

/-- Nothing comes out if a conversion changes a value. -/
def checked (s : Rtt) (timer : ℤ) : Option Rtt := estimate (fit (-128) 128) (fit 0 256) s timer

/-- Acknowledgments without retransmissions, after `tcp_alloc_accept` or `tcp_connect`; `cond` is
asked of the time that each one took. -/
inductive Measured (tcpRto : ℤ) (cond : ℤ → Prop) : Rtt → Prop where
  | accept : Measured tcpRto cond ⟨0, 4, tcpRto⟩
  | connect : Measured tcpRto cond ⟨0, 16, tcpRto⟩
  | ack {s : Rtt} (before : Measured tcpRto cond s) {timer : ℤ} (low : 1 ≤ timer)
      (high : timer ≤ s.rto) (time : cond (s.rto - timer)) : Measured tcpRto cond (update s timer)

structure Bounded (s : Rtt) : Prop where
  sa : 0 ≤ s.sa ∧ s.sa ≤ 248
  sv : 3 ≤ s.sv ∧ s.sv ≤ 124
  rto : 3 ≤ s.rto ∧ s.rto < 256

variable {s : Rtt} {timer : ℤ}

/-- Conversions that keep the values of their types change nothing. -/
theorem Bounded.estimate (bounded : Bounded s) (high : timer ≤ s.rto)
    (short : s.rto - timer ≤ 31) : ∃ s', Bounded s' ∧
      ∀ {m : Type → Type} [Monad m] [LawfulMonad m] {schar uint8 : ℤ → m ℤ},
        (∀ x, -128 ≤ x → x < 128 → schar x = pure x) → (∀ x, 0 ≤ x → x < 256 → uint8 x = pure x) →
        estimate schar uint8 s timer = pure s' := by
  obtain ⟨⟨sa, sa'⟩, ⟨sv, sv'⟩, rto, rto'⟩ := bounded
  generalize error : s.rto - timer - s.sa / 8 = delta
  generalize size : (if delta < 0 then -delta else delta) = abs
  refine ⟨⟨s.sa + delta, s.sv + (abs - s.sv / 4), (s.sa + delta) / 8 + (s.sv + (abs - s.sv / 4))⟩,
    ⟨by simp only; omega, by simp only; omega, by simp only; omega⟩, ?_⟩
  intro m _ _ schar uint8 signed unsigned
  unfold Timer.estimate
  rw [signed _ (by omega) (by omega), pure_bind, error, signed _ (by omega) (by omega), pure_bind,
    unsigned _ (by omega) (by omega), pure_bind, size, signed _ (by omega) (by omega), pure_bind,
    signed _ (by omega) (by omega), pure_bind, unsigned _ (by omega) (by omega), pure_bind,
    unsigned _ (by omega) (by omega), pure_bind]

theorem Bounded.update (bounded : Bounded s) (high : timer ≤ s.rto) (short : s.rto - timer ≤ 31) :
    checked s timer = some (update s timer) ∧ Bounded (update s timer) := by
  obtain ⟨s', bounded', same⟩ := bounded.estimate high short
  have wraps : Timer.update s timer = s' :=
    same (fun x h h' => congrArg pure (Int.bmod_eq_of_le (by omega) (by omega)))
      fun x h h' => congrArg pure (Int.emod_eq_of_lt h h')
  rw [wraps]
  exact ⟨same (fun x h h' => if_pos ⟨h, h'⟩) fun x h h' => if_pos ⟨h, h'⟩, bounded'⟩

/-- As long as each acknowledgment comes within 31 half seconds, no conversion changes a value and
`rto` is at least 3. -/
theorem estimate_exact {tcpRto : ℤ} (low : 3 ≤ tcpRto) (high : tcpRto < 256)
    (measured : Measured tcpRto (· ≤ 31) s) :
    3 ≤ s.rto ∧ ∀ timer, 1 ≤ timer → timer ≤ s.rto → s.rto - timer ≤ 31 →
      checked s timer = some (update s timer) := by
  have bounded : Bounded s := by
    induction measured with
    | accept | connect => exact ⟨by simp, by simp, low, high⟩
    | ack _ _ high short ih => exact (ih.update high short).2
  exact ⟨bounded.rto.1, fun timer _ high short => (bounded.update high short).1⟩

/-- The third of three acknowledgments that come just before the timeout. -/
theorem estimate_exact_late : 3 ≤ (8 : ℤ) ∧ checked ⟨6, 8, 8⟩ 1 = some ⟨13, 13, 14⟩ := by
  have first : Measured 3 (· ≤ 31) (update ⟨0, 4, 3⟩ 1) :=
    Measured.accept.ack (by decide) (by decide) (by decide)
  have second : Measured 3 (· ≤ 31) (update (update ⟨0, 4, 3⟩ 1) 1) :=
    first.ack (by decide) (by decide) (by decide)
  have exact_ := estimate_exact (Int.le_refl 3) (by decide) second
  exact ⟨exact_.1, exact_.2 1 (by decide) (by decide) (by decide)⟩

/-- Seven acknowledgments that come just before the timeout, an eighth one that makes `sa` wrap
around, and a ninth one that makes `rto` zero. -/
theorem estimate_overflows : ∃ s, Measured 3 (fun _ => True) s ∧ checked s 1 = none ∧
    (update (update s 1) 28).rto = 0 := by
  have late {s : Rtt} (before : Measured 3 (fun _ => True) s) (low : 1 ≤ s.rto) :
      Measured 3 (fun _ => True) (update s 1) := before.ack (by decide) low trivial
  have first := late (late (late .accept (by decide)) (by decide)) (by decide)
  have second := late (late (late first (by decide)) (by decide)) (by decide)
  exact ⟨_, late second (by decide), by decide, by decide⟩

/-! ## Polls -/

/-- A connection with outstanding data. -/
structure Waiting where
  timer : ℕ
  nrtx : ℕ

variable {δ : Type} [DecidableEq δ] (tcpRto hsec : ℕ) (own : δ)

/-- `tcp_timer` for a connection that is bound to the device `own`, when `dev` is polled, and
whether the timer has run out: then it is loaded again, if the connection is not given up. -/
def tcpTimer (dev : δ) (s : Waiting) : Waiting × Bool :=
  if hsec < s.timer then ({ s with timer := s.timer - hsec }, false)
  else if dev = own then (⟨tcpRto <<< min s.nrtx 4 % 256, (s.nrtx + 1) % 256⟩, true)
  else ({ s with timer := 0 }, false)

def polls (devs : List δ) (s : Waiting) : Waiting :=
  devs.foldl (fun s dev => (tcpTimer tcpRto hsec own dev s).1) s

/-- What is left of the timer after a poll. -/
def left : Waiting × Bool → ℕ
  | (s, expired) => if expired then 0 else s.timer

/-- The polls of some other devices, and the next one of the own device. -/
def interval (others : List δ) (s : Waiting) : Waiting × Bool :=
  tcpTimer tcpRto hsec own own (polls tcpRto hsec own others s)

/-- The timer runs out at the last of some polls of the own device, before each of which others are
polled. -/
def Expires : List (List δ) → Waiting → Prop
  | [], _ => False
  | others :: rounds, s =>
    let (next, expired) := interval tcpRto hsec own others s
    if expired then rounds = [] else Expires rounds next

/-- Before each poll of the own device no others are polled, or what is left of the timer runs out
anyway. -/
def Paced : List (List δ) → Waiting → Prop
  | [], _ => True
  | others :: rounds, s => (∀ dev ∈ others, dev ≠ own) ∧
      (others = [] ∨ hsec = 0 ∨ s.timer ≤ hsec) ∧ Paced rounds (interval tcpRto hsec own others s).1

variable {tcpRto hsec own} {others : List δ}

theorem polls_others (away : ∀ dev ∈ others, dev ≠ own) (s : Waiting) :
    (polls tcpRto hsec own others s).timer = s.timer - others.length * hsec := by
  induction others generalizing s with
  | nil => simp [polls]
  | cons dev others ih =>
    obtain ⟨other, away⟩ := forall_mem_cons.1 away
    have down : (tcpTimer tcpRto hsec own dev s).1.timer = s.timer - hsec := by
      unfold tcpTimer
      split <;> simp only
      omega
    refine (ih away _).trans ?_
    rw [down, length_cons, Nat.succ_mul, Nat.sub_sub, Nat.add_comm hsec]

theorem left_interval (away : ∀ dev ∈ others, dev ≠ own) (s : Waiting) :
    left (interval tcpRto hsec own others s) = s.timer - others.length * hsec - hsec := by
  have timer : (polls tcpRto hsec own others s).timer = _ := polls_others away s
  unfold interval tcpTimer
  rw [if_pos rfl, ← timer]
  split <;> simp only [left, if_true]
  · rfl
  · omega

theorem pace_iff (away : ∀ dev ∈ others, dev ≠ own) (s : Waiting) :
    s.timer ≤ left (interval tcpRto hsec own others s) + hsec ↔
      others = [] ∨ hsec = 0 ∨ s.timer ≤ hsec := by
  rw [left_interval away]
  cases others with
  | nil =>
    simp
    omega
  | cons dev others =>
    rw [length_cons, Nat.succ_mul]
    have zero : hsec = 0 → others.length * hsec = 0 := by simp +contextual
    simp only [reduceCtorEq, false_or]
    omega

/-- From one poll of its own device to the next the timer goes down by more than `hsec` if others
are polled in between, unless it runs out anyway. Else it does not run out early. -/
theorem own_pace :
    (∀ others s, (∀ dev ∈ others, dev ≠ own) →
      (s.timer ≤ left (interval tcpRto hsec own others s) + hsec ↔
        others = [] ∨ hsec = 0 ∨ s.timer ≤ hsec)) ∧
    ∀ rounds s, Paced tcpRto hsec own rounds s → Expires tcpRto hsec own rounds s →
      s.timer ≤ rounds.length * hsec := by
  refine ⟨fun others s away => pace_iff away s, fun rounds => ?_⟩
  induction rounds with
  | nil => exact fun _ _ => False.elim
  | cons others rounds ih =>
    rintro s ⟨away, alone, paced⟩ expires
    have down : s.timer ≤ left (interval tcpRto hsec own others s) + hsec :=
      (pace_iff away s).2 alone
    unfold Expires at expires
    generalize interval tcpRto hsec own others s = after at down paced expires
    obtain ⟨next, expired⟩ := after
    rw [length_cons, Nat.succ_mul]
    cases expired with
    | true =>
      simp only [left, if_true] at down
      omega
    | false =>
      have later : next.timer ≤ rounds.length * hsec := ih next paced expires
      simp only [left, Bool.false_eq_true, if_false] at down
      omega

/-- A timer of three runs out at the third poll of its own device; another device is polled before
that poll only. -/
theorem own_pace_last :
    Expires 3 1 0 [[], [], [1]] ⟨3, 0⟩ ∧ 3 ≤ ([[], [], [1]] : List (List ℕ)).length * 1 := by
  have paced : Paced 3 1 0 [[], [], [1]] ⟨3, 0⟩ :=
    ⟨nofun, .inl rfl, nofun, .inl rfl, by decide, .inr (.inr (by decide)), trivial⟩
  exact ⟨rfl, own_pace.2 _ _ paced rfl⟩

/-- With two devices a timer of three runs out at the second poll of its own device. -/
theorem expires_early : Expires 3 1 0 [[1], [1]] ⟨3, 0⟩ := rfl

end NuttxRtos.Tcp.Timer
