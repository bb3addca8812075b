import NuttxRtos.Wdog.Queue

/-!
# Runs of the watchdog timers

A run is any sequence of calls and timer ticks, with the calls that watchdog functions make in the
middle of a tick. `Good` ties the active list to the countdowns of the history, and `Faithful` is
what clients rely on.
-/

namespace NuttxRtos.Watchdog

open CheckedInt List Option
open Function (update update_eq_self_iff update_idem update_of_ne)

variable {α : Type} [DecidableEq α]

/-- A delay is below `INT32_MAX`. -/
def Call.Valid : Call α → Prop
  | .start _ delay => delay < 2 ^ 31 - 1
  | .cancel _ => True

/-- The active list, the flags and the countdowns agree. -/
structure Good (s : State α) : Prop where
  timed : Timed s.history 0 s.list
  nodup : (ids s.list).Nodup
  active : ∀ w, s.active w = true ↔ w ∈ ids s.list
  idle : ∀ w, w ∉ ids s.list → countdown s.history w = none
  bound : ∀ w k, countdown s.history w = some k → k < 2 ^ 31

/-- Every watchdog fires when its countdown reaches zero, in the order of the starts. -/
def Faithful : List (Event α) → Prop
  | [] => True
  | .fire w :: h => countdown h w = some 0 ∧
      (∀ v, v ≠ w → countdown h v = some 0 → started h w < started h v) ∧ Faithful h
  | .tick :: h => (∀ w, countdown h w ≠ some 0) ∧ Faithful h
  | .start _ _ :: h => Faithful h
  | .cancel _ :: h => Faithful h

/-- The timer interrupts of a history. -/
def ticks : List (Event α) → ℕ
  | [] => 0
  | .tick :: h => ticks h + 1
  | _ :: h => ticks h

variable {s : State α} {w : α}

theorem Good.fits (good : Good s) : Fits 0 s.list := good.timed.fits good.bound

theorem Good.mem_ids (good : Good s) {k : ℕ} (running : countdown s.history w = some k) :
    w ∈ ids s.list := by
  by_contra out
  simp [good.idle w out] at running

/-! ## Calls -/

theorem wdCancel_spec (good : Good s) (w : α) :
    ∃ l, wdCancel s w = some ⟨l, update s.active w false, s.history⟩ ∧
      ids l = (ids s.list).erase w ∧ Timed s.history 0 l := by
  unfold wdCancel
  split_ifs with running
  · obtain ⟨l, run, names, timed⟩ := cancelLoop_spec good.timed good.fits ((good.active w).1 running)
    exact ⟨l, by rw [run]; rfl, names, timed⟩
  have absent : w ∉ ids s.list := fun hw => running ((good.active w).2 hw)
  have flags : update s.active w false = s.active := by
    simpa using running
  exact ⟨s.list, by rw [flags], (erase_of_not_mem absent).symm, good.timed⟩

variable {l : List (Wdog α)}

theorem Good.remove (good : Good s) (names : ids l = (ids s.list).erase w)
    (timed : Timed s.history 0 l) {e : Event α} (stop : ∀ v, countdown (e :: s.history) v =
      if v = w then none else countdown s.history v)
    (same : ∀ v, started (e :: s.history) v = started s.history v) :
    Good ⟨l, update s.active w false, e :: s.history⟩ := by
  have mem : ∀ v, v ∈ ids l ↔ v ≠ w ∧ v ∈ ids s.list := fun v => by
    rw [names, good.nodup.mem_erase_iff]
  refine ⟨timed.congr fun v hv => ?_, names ▸ good.nodup.erase w, fun v => ?_, fun v hv => ?_,
    fun v k hk => ?_⟩
  · exact ⟨by rw [stop, if_neg ((mem v).1 hv).1], same v⟩
  · rw [mem]
    by_cases eq : v = w
    · simp [eq]
    · simp [eq, update_of_ne, good.active v]
  · simp only [stop]
    split_ifs with eq
    · rfl
    · exact good.idle v fun h => hv ((mem v).2 ⟨eq, h⟩)
  simp only [stop] at hk
  split_ifs at hk
  exact good.bound v k hk

variable {delay : ℤ} {d : ℕ} {since : List (Event α)}

theorem startDelay_eq (pos : 0 ≤ delay) (high : delay < 2 ^ 31 - 1) :
    startDelay delay = some ((delay.toNat : ℤ) + 1) := by
  unfold startDelay
  split_ifs with zero
  · simp only [Option.some.injEq]
    omega
  rw [int32_eq (by omega) (by omega), bind_eq_bind, bind_some, if_neg (by omega)]
  simp only [Option.some.injEq]
  omega

theorem wdStart_spec (w : α) (good : Good s) (pos : 0 ≤ delay) (high : delay < 2 ^ 31 - 1) :
    ∃ s', wdStart s w delay = some s' ∧ Good s' ∧
      s'.history = .start w delay.toNat :: s.history := by
  obtain ⟨l, run, names, timed⟩ := wdCancel_spec good w
  have stop : (if s.active w then wdCancel s w else some s) =
      some ⟨l, update s.active w false, s.history⟩ := by
    rw [← run]
    split_ifs with running
    · rfl
    · rw [wdCancel, if_neg running]
  have list : enqueue w (delay.toNat + 1) l = some (place w (delay.toNat + 1) 0 l) :=
    enqueue_spec (by omega) (by omega) (timed.fits good.bound)
  have absent : w ∉ ids l := by
    rw [names]
    exact good.nodup.not_mem_erase
  have perm := place_ids w (delay.toNat + 1) 0 l
  have mem : ∀ v, v ∈ ids (place w (delay.toNat + 1) 0 l) ↔ v = w ∨ v ∈ ids s.list := fun v => by
    rw [perm.mem_iff, mem_cons, names, good.nodup.mem_erase_iff]
    tauto
  refine ⟨⟨place w (delay.toNat + 1) 0 l, update s.active w true,
    .start w delay.toNat :: s.history⟩, ?_, ⟨?_, ?_, fun v => ?_, fun v hv => ?_, fun v k hk => ?_⟩,
    rfl⟩
  · simp only [wdStart, if_neg (Int.not_lt.2 pos), stop, startDelay_eq pos high, list,
      bind_eq_bind, bind_some, update_idem]
    rfl
  · exact timed.place absent (by omega)
  · exact perm.nodup_iff.2 (nodup_cons.2 ⟨absent, names ▸ good.nodup.erase w⟩)
  · rw [mem]
    by_cases eq : v = w
    · simp [eq]
    · simp [eq, update_of_ne, good.active v]
  · obtain ⟨ne, out⟩ := not_or.1 ((mem v).not.1 hv)
    simpa [countdown, ne] using good.idle v out
  simp only [countdown] at hk
  split_ifs at hk
  · have := Option.some.inj hk
    omega
  · exact good.bound v k hk

theorem call_spec (good : Good s) (faithful : Faithful s.history) {c : Call α} (valid : c.Valid) :
    ∃ s', call s c = some s' ∧ Good s' ∧ Faithful s'.history ∧
      ∀ v, countdown s'.history v = some 0 → countdown s.history v = some 0 := by
  cases c with
  | cancel w =>
    obtain ⟨l, run, names, timed⟩ := wdCancel_spec good w
    refine ⟨⟨l, update s.active w false, .cancel w :: s.history⟩, by simp [call, run],
      good.remove names timed (fun v => rfl) fun v => rfl, faithful, fun v zero => ?_⟩
    simp only [countdown] at zero
    split_ifs at zero
    exact zero
  | start w delay =>
    by_cases negative : delay < 0
    · exact ⟨s, by simp [call, wdStart, negative], good, faithful, fun v zero => zero⟩
    obtain ⟨s', run, good', history⟩ := wdStart_spec w good (Int.not_lt.1 negative) valid
    refine ⟨s', run, good', by rw [history]; exact faithful, fun v zero => ?_⟩
    rw [history] at zero
    simp only [countdown] at zero
    split_ifs at zero
    · simp at zero
    · exact zero

theorem calls_spec (good : Good s) (faithful : Faithful s.history) {calls : List (Call α)}
    (valid : ∀ c ∈ calls, c.Valid) : ∃ s', calls.foldlM call s = some s' ∧ Good s' ∧
      Faithful s'.history ∧ ∀ v, countdown s'.history v = some 0 → countdown s.history v = some 0 := by
  induction calls generalizing s with
  | nil => exact ⟨s, rfl, good, faithful, fun v zero => zero⟩
  | cons c calls ih =>
    obtain ⟨s₁, run, good₁, faithful₁, zeros⟩ := call_spec good faithful (valid c (by simp))
    obtain ⟨s', rest, good', faithful', zeros'⟩ := ih good₁ faithful₁ fun c hc =>
      valid c (mem_cons_of_mem _ hc)
    refine ⟨s', ?_, good', faithful', fun v zero => zeros v (zeros' v zero)⟩
    rw [foldlM_cons, run]
    exact rest

/-! ## The timer interrupt -/

variable {h : List (Event α)} {s' : State α}

theorem wdCancel_history (run : wdCancel s w = some s') : s'.history = s.history := by
  unfold wdCancel at run
  split_ifs at run
  · obtain ⟨l, -, run⟩ := bind_eq_some_iff.1 run
    rw [← Option.some.inj run]
  · rw [Option.some.inj run]

theorem call_ticks {c : Call α} (run : call s c = some s') : ticks s'.history = ticks s.history := by
  cases c with
  | cancel w =>
    obtain ⟨s₁, cancel, rfl⟩ := map_eq_some_iff.1 run
    have same := congrArg ticks (wdCancel_history cancel)
    exact same
  | start w delay =>
    rw [call, wdStart] at run
    by_cases negative : delay < 0
    · rw [if_pos negative] at run
      rw [Option.some.inj run]
    rw [if_neg negative] at run
    obtain ⟨s₁, stop, run⟩ := bind_eq_some_iff.1 run
    obtain ⟨_, -, run⟩ := bind_eq_some_iff.1 run
    obtain ⟨_, -, run⟩ := bind_eq_some_iff.1 run
    obtain rfl := Option.some.inj run
    split_ifs at stop
    · have same := congrArg ticks (wdCancel_history stop)
      exact same
    · rw [Option.some.inj stop]
      rfl

theorem calls_ticks {calls : List (Call α)} (run : calls.foldlM call s = some s') :
    ticks s'.history = ticks s.history := by
  induction calls generalizing s with
  | nil => rw [Option.some.inj run]
  | cons c calls ih =>
    obtain ⟨s₁, first, rest⟩ := bind_eq_some_iff.1 run
    rw [ih rest, call_ticks first]

theorem wdExpiration_ticks {func : List (Event α) → List (Call α)} {fuel : ℕ}
    (run : wdExpiration func fuel s = some s') : ticks s'.history = ticks s.history := by
  induction fuel generalizing s with
  | zero => cases run
  | succ fuel ih =>
    rw [wdExpiration] at run
    split at run
    · rw [Option.some.inj run]
    next wdog rest _ =>
    split_ifs at run
    · obtain ⟨rest, -, run⟩ := bind_eq_some_iff.1 run
      obtain ⟨s₁, calls, run⟩ := bind_eq_some_iff.1 run
      have same := calls_ticks calls
      exact (ih run).trans same
    · rw [Option.some.inj run]

/-- A call of `wd_timer` is one tick. -/
theorem wdTimer_tick {func : List (Event α) → List (Call α)} (run : wdTimer func s = some s') :
    ticks s'.history = ticks s.history + 1 := by
  rw [wdTimer] at run
  split at run
  · rw [← Option.some.inj run, ticks]
  · obtain ⟨lag, -, run⟩ := bind_eq_some_iff.1 run
    rw [wdExpiration_ticks run, ticks]

section Timer

variable {func : List (Event α) → List (Call α)} (valid : ∀ h, ∀ c ∈ func h, c.Valid)

include valid

omit valid in
/-- The head of the list leaves it when it fires, and the lag behind it stays as it is. -/
theorem Good.fire {e : Wdog α} {rest : List (Wdog α)} {active : α → Bool}
    (good : Good ⟨e :: rest, active, h⟩) (due : e.lag ≤ 0) (faithful : Faithful h) :
    inherit e.lag rest = some rest ∧ Good ⟨rest, update active e.id false, .fire e.id :: h⟩ ∧
      Faithful (.fire e.id :: h) := by
  obtain ⟨pos, time, order, tail⟩ := good.timed
  have lag : e.lag = 0 := le_antisymm due pos
  rw [lag] at time tail
  refine ⟨?_, good.remove (by simp) tail (fun v => rfl) fun v => rfl, time, fun v ne zero => ?_,
    faithful⟩
  · cases rest with
    | nil => rfl
    | cons next rest =>
      obtain ⟨-, -, low, high, -⟩ := good.fits
      rw [lag, inherit, Int.add_zero, int32_eq (by omega) (by omega)]
      rfl
  exact order v ((mem_cons.1 (good.mem_ids zero)).resolve_left ne) (zero.trans time.symm)

omit valid in
theorem Good.quiet (good : Good s) (later : ∀ e ∈ s.list.head?, 0 < e.lag) (v : α) :
    countdown s.history v ≠ some 0 := by
  intro zero
  have listed := good.mem_ids zero
  have timed := good.timed
  cases list : s.list with
  | nil => simp [list] at listed
  | cons e rest =>
    have := later e (by simp [list])
    rw [list] at timed listed
    obtain ⟨pos, time, -, tail⟩ := timed
    rcases mem_cons.1 listed with rfl | hv
    · have := Option.some.inj (time.symm.trans zero)
      omega
    obtain ⟨k, hk, le⟩ := tail.le hv
    have := Option.some.inj (hk.symm.trans zero)
    omega

/-- The expiration loop ends when no countdown is zero; each round fires one watchdog of `due`. -/
theorem wdExpiration_spec {fuel : ℕ} {due : List α} (good : Good s) (faithful : Faithful s.history)
    (zeros : ∀ v, countdown s.history v = some 0 → v ∈ due) (enough : due.length < fuel) :
    ∃ s', wdExpiration func fuel s = some s' ∧ Good s' ∧ Faithful s'.history ∧
      ∀ v, countdown s'.history v ≠ some 0 := by
  induction fuel generalizing s due with
  | zero => omega
  | succ fuel ih =>
    obtain ⟨list, active, h⟩ := s
    cases list with
    | nil => exact ⟨_, rfl, good, faithful, good.quiet (by simp)⟩
    | cons e rest =>
      by_cases late : e.lag ≤ 0
      · obtain ⟨behind, good₁, faithful₁⟩ := good.fire late faithful
        obtain ⟨s₂, run, good₂, faithful₂, zeros₂⟩ := calls_spec good₁ faithful₁ (valid _)
        have head : e.id ∈ due := zeros e.id faithful₁.1
        have fewer := length_erase_of_mem head
        have pos := length_pos_of_mem head
        have zeros' : ∀ v, countdown s₂.history v = some 0 → v ∈ due.erase e.id := by
          intro v zero
          have zero := zeros₂ v zero
          simp only [countdown] at zero
          split_ifs at zero with eq
          exact (mem_erase_of_ne eq).2 (zeros v zero)
        obtain ⟨s', loop, result⟩ := ih good₂ faithful₂ zeros' (by omega)
        refine ⟨s', ?_, result⟩
        rw [wdExpiration]
        simp only [if_pos late]
        rw [behind, bind_eq_bind, bind_some, run]
        exact loop
      · exact ⟨_, by simp [wdExpiration, late], good, faithful, good.quiet (by simpa using late)⟩

theorem wdTimer_spec (good : Good s) (faithful : Faithful s.history)
    (quiet : ∀ v, countdown s.history v ≠ some 0) :
    ∃ s', wdTimer func s = some s' ∧ Good s' ∧ Faithful s'.history ∧
      ∀ v, countdown s'.history v ≠ some 0 := by
  obtain ⟨list, active, h⟩ := s
  have idle : ∀ v, v ∉ ids list → countdown (.tick :: h) v = none := fun v hv => by
    simp [countdown, good.idle v hv]
  have bound : ∀ v k, countdown (.tick :: h) v = some k → k < 2 ^ 31 := by
    intro v k hk
    obtain ⟨k', hk', rfl⟩ := map_eq_some_iff.1 hk
    have := good.bound v k' hk'
    omega
  cases list with
  | nil =>
    have good' : Good ⟨[], active, .tick :: h⟩ :=
      ⟨trivial, good.nodup, good.active, idle, bound⟩
    exact ⟨_, rfl, good', ⟨quiet, faithful⟩, good'.quiet (by simp)⟩
  | cons head rest =>
    obtain ⟨pos, time, order, tail⟩ := good.timed
    obtain ⟨-, small, -⟩ := good.fits
    have ahead : 0 < head.lag := by
      refine lt_of_le_of_ne pos fun zero => quiet head.id ?_
      rw [time, ← zero]
      rfl
    have timed : Timed (.tick :: h) 0 (⟨head.id, head.lag - 1⟩ :: rest) := by
      have shift : Timed h 1 (⟨head.id, head.lag - 1⟩ :: rest) := by
        have lag : 1 + (head.lag - 1).toNat = 0 + head.lag.toNat := by omega
        refine ⟨by simp only; omega, ?_, order, ?_⟩
        · rw [time, lag]
        · rwa [lag]
      exact Timed.tick shift
    have good' : Good ⟨⟨head.id, head.lag - 1⟩ :: rest, active, .tick :: h⟩ :=
      ⟨timed, good.nodup, good.active, idle, bound⟩
    have enough : (ids (head :: rest)).length < rest.length + 2 := by simp
    obtain ⟨s', run, result⟩ := wdExpiration_spec valid good' ⟨quiet, faithful⟩
      (fun v zero => good'.mem_ids zero) enough
    refine ⟨s', ?_, result⟩
    rw [wdTimer]
    simp only
    rw [int32_eq (by omega) (by omega)]
    exact run

end Timer

/-! ## Runs -/

/-- The states that calls and ticks lead to; `func` is what the watchdog functions do. -/
inductive Run (func : List (Event α) → List (Call α)) : State α → Prop where
  | init : Run func ⟨[], fun _ => false, []⟩
  | call {s s' : State α} {c : Call α} (before : Run func s) (valid : c.Valid)
      (run : call s c = some s') : Run func s'
  | timer {s s' : State α} (before : Run func s) (run : wdTimer func s = some s') : Run func s'

theorem Run.good {func : List (Event α) → List (Call α)} (valid : ∀ h, ∀ c ∈ func h, c.Valid)
    (run : Run func s) : Good s ∧ Faithful s.history ∧ ∀ v, countdown s.history v ≠ some 0 := by
  induction run with
  | init =>
    exact ⟨⟨trivial, .nil, by simp, fun _ _ => rfl, by simp [countdown]⟩, trivial, by simp [countdown]⟩
  | call before ok run ih =>
    obtain ⟨good, faithful, quiet⟩ := ih
    obtain ⟨s', run', good', faithful', zeros⟩ := call_spec good faithful ok
    obtain rfl := Option.some.inj (run.symm.trans run')
    exact ⟨good', faithful', fun v zero => quiet v (zeros v zero)⟩
  | timer before run ih =>
    obtain ⟨good, faithful, quiet⟩ := ih
    obtain ⟨s', run', result⟩ := wdTimer_spec valid good faithful quiet
    obtain rfl := Option.some.inj (run.symm.trans run')
    exact result

theorem gettimeLoop_spec {now : ℕ} (timed : Timed h now l) (fits : Fits now l) (hw : w ∈ ids l) :
    gettimeLoop w now l = some (((countdown h w).getD 0 : ℕ) : ℤ) := by
  induction l generalizing now with
  | nil => simp at hw
  | cons e rest ih =>
    obtain ⟨pos, time, -, tail⟩ := timed
    obtain ⟨-, small, fits⟩ := fits
    have lag : ((now + e.lag.toNat : ℕ) : ℤ) = now + e.lag := by omega
    rw [gettimeLoop, int32_eq (by omega) small, bind_eq_bind, bind_some]
    split_ifs with found
    · rw [← found, time, getD_some, lag]
      rfl
    · rw [← lag]
      exact ih tail (lag ▸ fits) ((mem_cons.1 hw).resolve_left (Ne.symm found))

theorem Good.gettime (good : Good s) (w : α) :
    wdGettime s w = some (((countdown s.history w).getD 0 : ℕ) : ℤ) := by
  unfold wdGettime
  split_ifs with running
  · exact gettimeLoop_spec good.timed good.fits ((good.active w).1 running)
  · rw [good.idle w fun hw => running ((good.active w).2 hw)]
    rfl

/-! ## What clients see -/

/-- The event starts, cancels or fires `w`. -/
def Event.About (w : α) : Event α → Prop
  | .start v _ => v = w
  | .cancel v => v = w
  | .fire v => v = w
  | .tick => False

/-- `w` was started with delay `d`, and neither restarted nor cancelled nor fired in the events
`since`. -/
def Pending (w : α) (d : ℕ) (since h : List (Event α)) : Prop :=
  (∃ before, h = since ++ .start w d :: before) ∧ ∀ e ∈ since, ¬ e.About w

theorem Pending.countdown_eq (pending : Pending w d since h) :
    countdown h w = some (d + 1 - ticks since) := by
  obtain ⟨⟨before, rfl⟩, quiet⟩ := pending
  induction since with
  | nil => simp [countdown, ticks]
  | cons e since ih =>
    have rest := ih fun e he => quiet e (mem_cons_of_mem _ he)
    have here := quiet e (by simp)
    cases e with
    | start v | cancel v | fire v =>
      simpa [countdown, ticks, Event.About, Ne.symm here] using rest
    | tick =>
      simp only [cons_append, countdown, ticks, rest, map_some, Option.some.injEq]
      omega

theorem exists_pending {k : ℕ} (running : countdown h w = some k) :
    ∃ d since, Pending w d since h := by
  induction h generalizing k with
  | nil => simp [countdown] at running
  | cons e h ih =>
    -- an event of another watchdog, or a tick, joins those since the start
    have later : (∃ k, countdown h w = some k) → ¬ e.About w → ∃ d since, Pending w d since (e :: h) := by
      rintro ⟨k, hk⟩ other
      obtain ⟨d, since, ⟨before, rfl⟩, quiet⟩ := ih hk
      exact ⟨d, e :: since, ⟨before, rfl⟩, forall_mem_cons.2 ⟨other, quiet⟩⟩
    cases e with
    | start v d =>
      simp only [countdown] at running
      split_ifs at running with eq
      · exact ⟨d, [], ⟨h, by rw [eq]; rfl⟩, by simp⟩
      · exact later ⟨k, running⟩ (Ne.symm eq)
    | cancel v | fire v =>
      simp only [countdown] at running
      split_ifs at running with eq
      exact later ⟨k, running⟩ (Ne.symm eq)
    | tick =>
      obtain ⟨k', hk', -⟩ := map_eq_some_iff.1 running
      exact later ⟨k', hk'⟩ id

theorem Faithful.drop {rest : List (Event α)} (faithful : Faithful (rest ++ h)) : Faithful h := by
  induction rest with
  | nil => exact faithful
  | cons e rest ih =>
    cases e with
    | start v d | cancel v => exact ih faithful
    | fire v => exact ih faithful.2.2
    | tick => exact ih faithful.2

theorem Faithful.ticks_le (faithful : Faithful h) (pending : Pending w d since h) :
    ticks since ≤ d + 1 := by
  obtain ⟨⟨before, rfl⟩, quiet⟩ := pending
  induction since with
  | nil => exact Nat.zero_le _
  | cons e since ih =>
    have others : ∀ e ∈ since, ¬ e.About w := fun e he => quiet e (mem_cons_of_mem _ he)
    cases e with
    | start v k | cancel v => exact ih others faithful
    | fire v => exact ih others faithful.2.2
    | tick =>
      have pending : Pending w d since (since ++ .start w d :: before) := ⟨⟨before, rfl⟩, others⟩
      have ahead : countdown (since ++ .start w d :: before) w ≠ some 0 := faithful.1 w
      rw [pending.countdown_eq, ne_eq, Option.some.injEq] at ahead
      simp only [ticks]
      omega

theorem zero_since_tick {mid : List (Event α)} (same : ticks mid = 0)
    (zero : countdown (mid ++ h) w = some 0) :
    countdown h w = some 0 ∧ started (mid ++ h) w = started h w := by
  induction mid with
  | nil => exact ⟨zero, rfl⟩
  | cons e mid ih =>
    cases e with
    | start v d =>
      simp only [cons_append, countdown, started] at zero ⊢
      split_ifs at zero ⊢ with eq
      · simp at zero
      · exact ih same zero
    | cancel v | fire v =>
      simp only [cons_append, countdown] at zero
      split_ifs at zero
      exact ih same zero
    | tick => simp [ticks] at same

/-- Each watchdog fires in the tick that its delay says, only after a start, and those of one tick
fire in the order of their starts. -/
structure Countdowns (h : List (Event α)) : Prop where
  onTime : ∀ rest h₀ w d since, h = rest ++ .fire w :: h₀ → Pending w d since h₀ →
    ticks since = d + 1
  onceStarted : ∀ rest h₀ w, h = rest ++ .fire w :: h₀ → ∃ d since, Pending w d since h₀
  inOrder : ∀ rest mid h₀ v w, h = rest ++ .fire v :: (mid ++ .fire w :: h₀) → ticks mid = 0 →
    started h₀ w < started (mid ++ .fire w :: h₀) v

theorem Faithful.countdowns (faithful : Faithful h) : Countdowns h := by
  refine ⟨?_, ?_, ?_⟩
  · rintro rest h₀ w d since rfl pending
    obtain ⟨zero, -, before⟩ := faithful.drop
    rw [pending.countdown_eq] at zero
    have := Option.some.inj zero
    have := before.ticks_le pending
    omega
  · rintro rest h₀ w rfl
    exact exists_pending faithful.drop.1
  rintro rest mid h₀ v w rfl same
  obtain ⟨zero, -, before⟩ := faithful.drop
  obtain ⟨zero, eq⟩ := zero_since_tick same zero
  obtain ⟨-, order, -⟩ := before.drop
  rw [eq]
  simp only [countdown] at zero
  split_ifs at zero with ne
  exact order v ne zero

/-- In every run the watchdogs are independent countdowns: started with delay `d`, a watchdog fires
once, in the tick `d + 1` after its start, those that expire together fire in the order of their
starts, and `wd_gettime` is the time left. No step overflows, and the calls of `wd_timer` are the
ticks. -/
theorem run_countdowns {func : List (Event α) → List (Call α)} (valid : ∀ h, ∀ c ∈ func h, c.Valid)
    (run : Run func s) : Countdowns s.history ∧ (∀ w d since, Pending w d since s.history →
        ticks since ≤ d ∧ wdGettime s w = some ((d + 1 : ℤ) - ticks since)) ∧
      (∀ w, (∀ d since, ¬ Pending w d since s.history) → wdGettime s w = some 0) ∧
      (∀ c : Call α, c.Valid → ∃ s', call s c = some s' ∧ ticks s'.history = ticks s.history) ∧
      ∃ s', wdTimer func s = some s' ∧ ticks s'.history = ticks s.history + 1 := by
  obtain ⟨good, faithful, quiet⟩ := run.good valid
  refine ⟨faithful.countdowns, fun w d since pending => ?_, fun w idle => ?_, fun c ok => ?_, ?_⟩
  · have ahead := quiet w
    have left := good.gettime w
    rw [pending.countdown_eq] at ahead left
    have below : ticks since ≤ d := by
      by_contra late
      exact ahead (congrArg some (by omega))
    refine ⟨below, left.trans (congrArg some ?_)⟩
    rw [getD_some]
    omega
  · rw [good.gettime w]
    cases running : countdown s.history w with
    | none => rfl
    | some k =>
      obtain ⟨d, since, pending⟩ := exists_pending running
      exact absurd pending (idle d since)
  · obtain ⟨s', run, -⟩ := call_spec good faithful ok
    exact ⟨s', run, call_ticks run⟩
  · obtain ⟨s', run, -⟩ := wdTimer_spec valid good faithful quiet
    exact ⟨s', run, wdTimer_tick run⟩

/-- Watchdog 7 restarts itself when it fires. -/
def periodic : List (Event ℕ) → List (Call ℕ)
  | .fire 7 :: _ => [.start 7 0]
  | _ => []

/-- Two watchdogs expire in one tick, and the first one is started again before the second fires. -/
theorem run_countdowns_periodic : ∃ s : State ℕ, Run periodic s ∧
    s.history = [.fire 8, .start 7 0, .fire 7, .tick, .start 8 0, .start 7 0] ∧
      wdGettime s 7 = some 1 ∧ started [.tick, .start 8 0, .start 7 0] 7 <
        started [.start 7 0, .fire 7, .tick, .start 8 0, .start 7 0] 8 := by
  have valid : ∀ h, ∀ c ∈ periodic h, c.Valid := by
    intro h c called
    unfold periodic at called
    split at called
    · simp [mem_singleton.1 called, Call.Valid]
    · cases called
  have first : call (⟨[], fun _ => false, []⟩ : State ℕ) (.start 7 0) =
      some ⟨[⟨7, 1⟩], update (fun _ => false) 7 true, [.start 7 0]⟩ := rfl
  have second : call (⟨[⟨7, 1⟩], update (fun _ => false) 7 true, [.start 7 0]⟩ : State ℕ)
      (.start 8 0) = some ⟨[⟨7, 1⟩, ⟨8, 0⟩], update (update (fun _ => false) 7 true) 8 true,
        [.start 8 0, .start 7 0]⟩ := rfl
  have timer : (wdTimer periodic (⟨[⟨7, 1⟩, ⟨8, 0⟩], update (update (fun _ => false) 7 true) 8 true,
      [.start 8 0, .start 7 0]⟩ : State ℕ)).map State.history =
      some [.fire 8, .start 7 0, .fire 7, .tick, .start 8 0, .start 7 0] := by
    decide
  obtain ⟨s, timer, history⟩ := map_eq_some_iff.1 timer
  have started_ : Run periodic _ := .call (.call .init (by simp [Call.Valid]) first)
    (by simp [Call.Valid]) second
  have run : Run periodic s := .timer started_ timer
  obtain ⟨countdowns, left, -⟩ := run_countdowns valid run
  have pending : Pending 7 0 [.fire 8] s.history := ⟨⟨_, history⟩, by simp [Event.About]⟩
  exact ⟨s, run, history, (left 7 0 _ pending).2, countdowns.inOrder [] [.start 7 0] _ 8 7 history rfl⟩

end NuttxRtos.Watchdog
