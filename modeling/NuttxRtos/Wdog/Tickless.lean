import NuttxRtos.Wdog.Model

/-! `wd_timer` with `CONFIG_SCHED_TICKLESS` against the ticks one by one. -/

namespace NuttxRtos.Watchdog

open CheckedInt List Option Function

variable {α : Type} [DecidableEq α] {width fuel : ℕ}

/-- It also counts `g_wdtickbase`, and returns the delay of the next watchdog. -/
def wdTimerTickless (func : List (Event α) → List (Call α)) : ℕ → ℤ → State α → BitVec width →
    Option (State α × BitVec width × ℤ)
  | 0, _, _, _ => none
  | fuel + 1, ticks, s, base =>
    match s.list with
    | [] => some (s, base + BitVec.ofInt width ticks, 0)
    | wdog :: rest =>
      if 0 < ticks then do
        let decr := min wdog.lag ticks
        let lag ← int32 (wdog.lag - decr)
        let s ← wdExpiration func (rest.length + 2)
          { s with list := { wdog with lag := lag } :: rest }
        wdTimerTickless func fuel (ticks - decr) s (base + BitVec.ofInt width decr)
      else some (s, base + BitVec.ofInt width ticks, wdog.lag)

def Lags (l : List (Wdog α)) : Prop := ∀ e ∈ l, 0 ≤ e.lag ∧ e.lag < 2 ^ 31

def State.delay (s : State α) : ℤ := (s.list.head?.map Wdog.lag).getD 0

/-- The list, the flags and what was fired, the last one first. -/
abbrev View (α : Type) := List (Wdog α) × (α → Bool) × List α

def State.view (s : State α) : View α :=
  (s.list, s.active, s.history.filterMap fun | .fire wdog => some wdog | _ => none)

/-- What is to happen in an interval. -/
def elapse : List (Wdog α) → ℤ → (α → Bool) × List α → View α
  | [], _, log => ([], log)
  | e :: rest, k, log =>
    if e.lag ≤ k then elapse rest (k - e.lag) (update log.1 e.id false, e.id :: log.2)
    else (⟨e.id, e.lag - k⟩ :: rest, log)

/-- Without a tick nothing is fired, even if it is due. -/
def after (v : View α) (k : ℤ) : View α := if 0 < k then elapse v.1 k v.2 else v

variable {s : State α} {v : View α} {l rest : List (Wdog α)} {a b k lag : ℤ}
  {log : (α → Bool) × List α}

theorem elapse_list (lags : Lags l) (low : 0 ≤ k) :
    Lags (elapse l k log).1 ∧ (elapse l k log).1.length ≤ l.length := by
  induction l generalizing k log with
  | nil => exact ⟨lags, Nat.le_refl _⟩
  | cons e rest ih =>
    obtain ⟨head, behind⟩ := forall_mem_cons.1 lags
    rw [elapse]
    split
    · refine (ih behind ?_).imp_right Nat.le_succ_of_le
      omega
    · exact ⟨forall_mem_cons.2 ⟨by simp only; omega, behind⟩, Nat.le_refl _⟩

theorem elapse_elapse (low : 0 ≤ b) :
    elapse (elapse l a log).1 b (elapse l a log).2 = elapse l (a + b) log := by
  induction l generalizing a log with
  | nil => rfl
  | cons e rest ih =>
    by_cases due : e.lag ≤ a
    · simp only [elapse, if_pos due, if_pos (show e.lag ≤ a + b by omega)]
      rw [ih, show a - e.lag + b = a + b - e.lag by omega]
    · simp only [elapse, if_neg due]
      split
      · rw [if_pos (by omega), show b - (e.lag - a) = a + b - e.lag by omega]
      · rw [if_neg (by omega), Int.sub_sub]

theorem after_elapse (low : 0 ≤ b) (positive : 0 < a + b) :
    after (elapse l a log) b = after (l, log) (a + b) := by
  simp only [after, if_pos positive]
  split
  · exact elapse_elapse low
  · rw [show b = 0 by omega, Int.add_zero]

theorem after_after (low : 0 ≤ a) (low' : 0 ≤ b) : after (after v a) b = after v (a + b) := by
  by_cases positive : 0 < a
  · rw [show after v a = elapse v.1 a v.2 from if_pos positive, after_elapse low' (by omega)]
  · rw [show after v a = v from if_neg positive, show a + b = b by omega]

theorem Lags.after (lags : Lags s.list) :
    Lags (after s.view k).1 ∧ (Watchdog.after s.view k).1.length ≤ s.list.length := by
  unfold Watchdog.after
  split
  · exact elapse_list lags (by omega)
  · exact ⟨lags, Nat.le_refl _⟩

theorem wdExpiration_quiet (lags : Lags rest) (late : k ≤ lag + 1) (id : α) (active : α → Bool)
    (h : List (Event α)) : ∃ s',
      wdExpiration (fun _ => []) (rest.length + 2) ⟨⟨id, lag - k⟩ :: rest, active, h⟩ = some s' ∧
        s'.view = elapse (⟨id, lag⟩ :: rest) k (State.view ⟨rest, active, h⟩).2 := by
  induction rest generalizing id lag k active h with
  | nil =>
    rw [wdExpiration, elapse]
    by_cases due : lag ≤ k
    · simp only [if_pos due, if_pos (show lag - k ≤ 0 by omega)]
      exact ⟨_, rfl, rfl⟩
    · simp only [if_neg due, if_neg (show ¬ lag - k ≤ 0 by omega)]
      exact ⟨_, rfl, rfl⟩
  | cons next rest ih =>
    obtain ⟨head, behind⟩ := forall_mem_cons.1 lags
    rw [wdExpiration, elapse]
    by_cases due : lag ≤ k
    · simp only [if_pos due, if_pos (show lag - k ≤ 0 by omega), inherit]
      rw [show next.lag + (lag - k) = next.lag - (k - lag) by omega, int32_eq (by omega) (by omega)]
      exact ih behind (by omega) next.id (update active id false) (.fire id :: h)
    · simp only [if_neg due, if_neg (show ¬ lag - k ≤ 0 by omega)]
      exact ⟨_, rfl, rfl⟩

theorem wdTimer_quiet (lags : Lags s.list) :
    ∃ s', wdTimer (fun _ => []) s = some s' ∧ s'.view = after s.view 1 := by
  obtain ⟨l, active, h⟩ := s
  cases l with
  | nil => exact ⟨_, rfl, rfl⟩
  | cons e rest =>
    obtain ⟨head, behind⟩ := forall_mem_cons.1 lags
    rw [wdTimer]
    simp only
    rw [int32_eq (by omega) (by omega)]
    exact wdExpiration_quiet behind (by omega) e.id active (.tick :: h)

theorem wdTimer_ticks (lags : Lags s.list) (n : ℕ) :
    ∃ s', (· >>= wdTimer fun _ => [])^[n] (some s) = some s' ∧ s'.view = after s.view n := by
  induction n with
  | zero => exact ⟨s, rfl, rfl⟩
  | succ n ih =>
    obtain ⟨s₁, run, view⟩ := ih
    have kept : Lags s₁.view.1 := view ▸ lags.after.1
    obtain ⟨s₂, tick, view'⟩ := wdTimer_quiet kept
    refine ⟨s₂, by rw [iterate_succ_apply', run]; exact tick, ?_⟩
    rw [view', view, after_after (by omega) (by decide), Int.natCast_succ]

theorem wdTimerTickless_quiet (lags : Lags s.list) (low : 0 ≤ k)
    (enough : s.list.length < fuel ∨ k = 0 ∧ 0 < fuel) (base : BitVec width) :
    ∃ s', wdTimerTickless (fun _ => []) fuel k s base =
      some (s', base + BitVec.ofInt width k, s'.delay) ∧ s'.view = after s.view k := by
  induction fuel generalizing s k base with
  | zero => omega
  | succ fuel ih =>
    obtain ⟨l, active, h⟩ := s
    rw [wdTimerTickless]
    cases l with
    | nil => exact ⟨_, rfl, by simp [after, elapse, State.view]⟩
    | cons e rest =>
      obtain ⟨head, behind⟩ := forall_mem_cons.1 lags
      by_cases positive : 0 < k
      · simp only [length_cons] at enough
        obtain ⟨s₁, run, view⟩ := wdExpiration_quiet behind
          (show min e.lag k ≤ e.lag + 1 by omega) e.id active h
        have kept : Lags s₁.view.1 := view ▸ (elapse_list lags (by omega)).1
        have left : s₁.view.1.length < fuel ∨ k - min e.lag k = 0 ∧ 0 < fuel := by
          by_cases due : e.lag ≤ k
          · rw [view, elapse, if_pos (by simp only; omega)]
            exact .inl (Nat.lt_of_le_of_lt (elapse_list behind (by simp only; omega)).2 (by omega))
          · exact .inr (by omega)
        obtain ⟨s₂, loop, view'⟩ := ih kept (by omega) left (base + BitVec.ofInt width (min e.lag k))
        rw [BitVec.add_assoc, ← BitVec.ofInt_add] at loop
        rw [view, after_elapse (by omega) (by omega)] at view'
        rw [show min e.lag k + (k - min e.lag k) = k by omega] at loop view'
        simp only [if_pos positive]
        rw [int32_eq (by omega) (by omega), bind_eq_bind, bind_some, run]
        exact ⟨s₂, loop, view'⟩
      · simp only [if_neg positive]
        exact ⟨_, rfl, (if_neg positive).symm⟩

/-- What `a + b` ticks do: one by one, at once, and in two parts. -/
def Agree (s : State α) (fuel a b : ℕ) (base : BitVec width) : Prop :=
  ∃ s₁ s₂ s₃ s₄,
    (· >>= wdTimer fun _ => [])^[a + b] (some s) = some s₁ ∧
    wdTimerTickless (fun _ => []) fuel (a + b) s base =
      some (s₂, base + BitVec.ofInt width (a + b), s₂.delay) ∧
    wdTimerTickless (fun _ => []) fuel a s base = some (s₃, base + BitVec.ofInt width a, s₃.delay) ∧
    wdTimerTickless (fun _ => []) fuel b s₃ (base + BitVec.ofInt width a) =
      some (s₄, base + BitVec.ofInt width (a + b), s₄.delay) ∧
    s₁.view = s₂.view ∧ s₄.view = s₂.view

/-- The tickless `wd_timer` fires what the single ticks fire, in the same order, leaves the same list,
counts every tick, and may take an interval in two parts. -/
theorem tickless_eq_ticks (lags : Lags s.list) (a b : ℕ) (enough : s.list.length < fuel)
    (base : BitVec width) : Agree s fuel a b base := by
  obtain ⟨s₁, ticks, view₁⟩ := wdTimer_ticks lags (a + b)
  obtain ⟨s₂, whole, view₂⟩ :=
    wdTimerTickless_quiet lags (Int.natCast_nonneg (a + b)) (.inl enough) base
  obtain ⟨s₃, first, view₃⟩ :=
    wdTimerTickless_quiet lags (Int.natCast_nonneg a) (.inl enough) base
  have kept : Lags s₃.view.1 ∧ s₃.view.1.length ≤ s.list.length := view₃ ▸ lags.after
  obtain ⟨s₄, second, view₄⟩ := wdTimerTickless_quiet kept.1 (Int.natCast_nonneg b)
    (.inl (Nat.lt_of_le_of_lt kept.2 enough)) (base + BitVec.ofInt width a)
  rw [BitVec.add_assoc, ← BitVec.ofInt_add] at second
  rw [view₃, after_after (by omega) (by omega)] at view₄
  exact ⟨s₁, s₂, s₃, s₄, ticks, whole, first, second, view₁.trans view₂.symm, view₄.trans view₂.symm⟩

theorem tickless_eq_ticks_three :
    Agree ⟨[⟨0, 2⟩, ⟨1, 2⟩], fun _ => true, []⟩ 3 1 2 255#8 :=
  tickless_eq_ticks (by unfold Lags; decide) 1 2 (by decide) 255#8

end NuttxRtos.Watchdog
