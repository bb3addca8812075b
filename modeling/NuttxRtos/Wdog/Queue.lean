import NuttxRtos.Wdog.Model
import Mathlib.Data.List.Nodup

/-!
# The delta queue

What a client expects of a watchdog is a countdown of its own: `countdown` reads it off the events,
and looks at no other watchdog. In the active list the prefix sums of the lags are these countdowns
and equal countdowns stand in the order of their starts (`Timed`).
-/

namespace NuttxRtos.Watchdog

open CheckedInt List Option

variable {α : Type} [DecidableEq α]

/-! ## Countdowns -/

/-- The ticks until `wdog` is to fire, or `none` when it is not running. -/
def countdown : List (Event α) → α → Option ℕ
  | [], _ => none
  | .start w d :: h, wdog => if wdog = w then some (d + 1) else countdown h wdog
  | .cancel w :: h, wdog => if wdog = w then none else countdown h wdog
  | .fire w :: h, wdog => if wdog = w then none else countdown h wdog
  | .tick :: h, wdog => (countdown h wdog).map (· - 1)

def started : List (Event α) → α → ℕ
  | [], _ => 0
  | .start w _ :: h, wdog => if wdog = w then h.length + 1 else started h wdog
  | _ :: h, wdog => started h wdog

theorem started_le (h : List (Event α)) (wdog : α) : started h wdog ≤ h.length := by
  induction h with
  | nil => exact le_rfl
  | cons e h ih =>
    cases e with
    | start w d =>
      simp only [started, length_cons]
      split_ifs
      · exact le_rfl
      · exact ih.trans (Nat.le_succ _)
    | cancel w | tick | fire w => exact ih.trans (Nat.le_succ _)

/-! ## The list -/

abbrev ids (l : List (Wdog α)) : List α := l.map Wdog.id

/-- The list from the time `now` on: lags add up to the countdowns, and watchdogs with one countdown
stand in the order of their starts. -/
def Timed (h : List (Event α)) : ℕ → List (Wdog α) → Prop
  | _, [] => True
  | now, e :: rest =>
    0 ≤ e.lag ∧ countdown h e.id = some (now + e.lag.toNat) ∧
      (∀ v ∈ ids rest, countdown h v = countdown h e.id → started h e.id < started h v) ∧
      Timed h (now + e.lag.toNat) rest

variable {h h' : List (Event α)} {now : ℕ} {l : List (Wdog α)} {w : α}

theorem Timed.congr (timed : Timed h now l)
    (same : ∀ v ∈ ids l, countdown h' v = countdown h v ∧ started h' v = started h v) :
    Timed h' now l := by
  induction l generalizing now with
  | nil => trivial
  | cons e rest ih =>
    obtain ⟨pos, time, order, tail⟩ := timed
    have here := same e.id (by simp)
    refine ⟨pos, here.1.trans time, fun v hv eq => ?_, ih tail fun v hv => same v (by simp [hv])⟩
    have there := same v (mem_cons_of_mem _ hv)
    rw [here.2, there.2]
    exact order v hv (by rw [← here.1, ← there.1, eq])

theorem Timed.le (timed : Timed h now l) (hw : w ∈ ids l) :
    ∃ k, countdown h w = some k ∧ now ≤ k := by
  induction l generalizing now with
  | nil => simp at hw
  | cons e rest ih =>
    obtain ⟨pos, time, -, tail⟩ := timed
    rcases mem_cons.1 hw with rfl | hw
    · exact ⟨_, time, Nat.le_add_right _ _⟩
    · obtain ⟨k, hk, le⟩ := ih tail hw
      exact ⟨k, hk, (Nat.le_add_right _ _).trans le⟩

theorem Timed.tick (timed : Timed h (now + 1) l) : Timed (.tick :: h) now l := by
  induction l generalizing now with
  | nil => trivial
  | cons e rest ih =>
    obtain ⟨pos, time, order, tail⟩ := timed
    refine ⟨pos, ?_, fun v hv eq => ?_, ih (by rwa [add_right_comm] at tail)⟩
    · simp only [countdown, time, map_some]
      congr 1
      omega
    refine order v hv ?_
    obtain ⟨k, hk, le⟩ := tail.le hv
    simp only [countdown, time, hk, map_some, Option.some.injEq] at eq ⊢
    omega

/-- The times in the list stay in the range of `int32_t`. -/
def Fits (now : ℤ) : List (Wdog α) → Prop
  | [] => True
  | e :: rest => 0 ≤ e.lag ∧ now + e.lag < 2 ^ 31 ∧ Fits (now + e.lag) rest

theorem Timed.fits (timed : Timed h now l)
    (bound : ∀ v k, countdown h v = some k → k < 2 ^ 31) : Fits now l := by
  induction l generalizing now with
  | nil => trivial
  | cons e rest ih =>
    obtain ⟨pos, time, -, tail⟩ := timed
    have := bound _ _ time
    have lag : ((now + e.lag.toNat : ℕ) : ℤ) = now + e.lag := by omega
    exact ⟨pos, by omega, lag ▸ ih tail⟩

/-! ## Removal -/

theorem cancelLoop_spec (timed : Timed h now l) (fits : Fits now l)
    (hw : w ∈ ids l) : ∃ l', cancelLoop w l = some l' ∧ ids l' = (ids l).erase w ∧
      Timed h now l' := by
  induction l generalizing now with
  | nil => simp at hw
  | cons curr rest ih =>
    obtain ⟨pos, time, order, tail⟩ := timed
    obtain ⟨-, small, fits⟩ := fits
    by_cases found : curr.id = w
    · subst found
      cases rest with
      | nil => exact ⟨[], by simp [cancelLoop, inherit], by simp, trivial⟩
      | cons next rest =>
        obtain ⟨pos', time', order', tail'⟩ := tail
        obtain ⟨-, small', -⟩ := fits
        have lag : now + curr.lag.toNat + next.lag.toNat = now + (next.lag + curr.lag).toNat := by
          omega
        refine ⟨⟨next.id, next.lag + curr.lag⟩ :: rest, ?_, by simp, by simp only; omega, ?_, order', ?_⟩
        · rw [cancelLoop, if_pos rfl, inherit, int32_eq (by omega) (by omega)]
          rfl
        · rw [time', lag]
        · rwa [lag] at tail'
    have hw : w ∈ ids rest := (mem_cons.1 hw).resolve_left (Ne.symm found)
    have lag : ((now + curr.lag.toNat : ℕ) : ℤ) = now + curr.lag := by omega
    obtain ⟨l', run, names, timed'⟩ := ih tail (lag ▸ fits) hw
    refine ⟨curr :: l', by simp [cancelLoop, found, run], ?_, pos, time, fun v hv => ?_, timed'⟩
    · rw [ids, map_cons, ids, map_cons, erase_cons_tail (by simpa using found)]
      exact congrArg _ names
    · rw [names] at hv
      exact order v (mem_of_mem_erase hv)

/-! ## Insertion -/

/-- Where `wd_start` puts a watchdog that fires at `delay`: behind those that fire no later. -/
def place (wdog : α) (delay : ℤ) : ℤ → List (Wdog α) → List (Wdog α)
  | now, [] => [⟨wdog, delay - now⟩]
  | now, e :: rest =>
    if now + e.lag ≤ delay then e :: place wdog delay (now + e.lag) rest
    else ⟨wdog, delay - now⟩ :: { e with lag := now + e.lag - delay } :: rest

variable {delay time : ℤ} {rest : List (Wdog α)} {curr : Wdog α}

section

omit [DecidableEq α]

theorem insertAt_before {before : List (Wdog α)} (low : 0 ≤ time - curr.lag)
    (early : time - curr.lag ≤ delay) (less : delay < time) (small : time < 2 ^ 31) :
    insertAt w delay ⟨before, curr, rest, time⟩ =
      some (before ++ ⟨w, delay - (time - curr.lag)⟩ :: ⟨curr.id, time - delay⟩ :: rest) := by
  have lag : curr.lag - (delay - (time - curr.lag)) = time - delay := by omega
  simp only [insertAt, if_pos less]
  rw [int32_eq (by omega) (by omega)]
  simp only [bind_eq_bind, bind_some]
  rw [int32_eq (by omega) (by omega), bind_some, lag, int32_eq (by omega) (by omega)]
  rfl

/-- The second loop and the insertion, from the watchdog `curr` at the time `time` on. -/
theorem advanceShorter_spec (w : α) (before : List (Wdog α)) (pos : 0 ≤ curr.lag)
    (low : 0 ≤ time - curr.lag) (early : time - curr.lag ≤ delay) (high : delay < 2 ^ 31)
    (small : time < 2 ^ 31) (fits : Fits time rest) :
    (advanceShorter delay before time curr rest).bind (insertAt w delay) =
      some (before ++ place w delay (time - curr.lag) (curr :: rest)) := by
  induction rest generalizing time before curr with
  | nil =>
    rw [advanceShorter, bind_some, place, Int.sub_add_cancel]
    split_ifs with le
    · simp only [insertAt, if_neg (Int.not_lt.2 le)]
      rw [int32_eq (by omega) (by omega)]
      rfl
    · exact insertAt_before low early (Int.not_le.1 le) small
  | cons next rest ih =>
    obtain ⟨pos', small', fits'⟩ := fits
    rw [advanceShorter, place, Int.sub_add_cancel]
    split_ifs with le
    · have back : time + next.lag - next.lag = time := by omega
      rw [int32_eq (by omega) (by omega), bind_eq_bind, bind_some,
        ih _ pos' (by omega) (by omega) small' fits', back]
      simp
    · exact insertAt_before low early (Int.not_le.1 le) small

theorem enqueue_spec (pos : 0 ≤ delay) (high : delay < 2 ^ 31) (fits : Fits 0 l) :
    enqueue w delay l = some (place w delay 0 l) := by
  cases l with
  | nil => simp [enqueue, place]
  | cons head rest =>
    obtain ⟨lag, small, fits⟩ := fits
    rw [Int.zero_add] at small fits
    have first : advancePositive [] 0 head rest = some ⟨[], head, rest, head.lag⟩ := by
      cases rest with
      | nil =>
        rw [advancePositive, Int.zero_add, int32_eq (by omega) small]
        rfl
      | cons next rest =>
        rw [advancePositive, Int.zero_add, int32_eq (by omega) small, bind_eq_bind,
          bind_some, if_neg (by omega)]
        rfl
    rw [enqueue, first]
    have second := advanceShorter_spec w [] lag (by omega : 0 ≤ head.lag - head.lag)
      (by omega) high small fits
    rw [Int.sub_self, nil_append] at second
    exact second

theorem place_ids (w : α) (delay time : ℤ) (l : List (Wdog α)) :
    (ids (place w delay time l)).Perm (w :: ids l) := by
  induction l generalizing time with
  | nil => exact .refl _
  | cons e rest ih =>
    rw [place]
    split_ifs
    · exact ((ih _).cons e.id).trans (.swap w e.id _)
    · exact .refl _

end

theorem Timed.place {d : ℕ} (timed : Timed h now l) (new : w ∉ ids l) (early : now ≤ d + 1) :
    Timed (.start w d :: h) now (place w (d + 1) now l) := by
  induction l generalizing now with
  | nil =>
    refine ⟨by simp only; omega, ?_, by simp, trivial⟩
    simp only [countdown, if_true, Option.some.injEq]
    omega
  | cons e rest ih =>
    obtain ⟨pos, time, order, tail⟩ := timed
    have ne : ∀ v ∈ ids (e :: rest), v ≠ w := fun v hv eq => new (eq ▸ hv)
    have lag : ((now + e.lag.toNat : ℕ) : ℤ) = now + e.lag := by omega
    have same : ∀ v ∈ ids (e :: rest), countdown (.start w d :: h) v = countdown h v ∧
        started (.start w d :: h) v = started h v := fun v hv => by
      simp [countdown, started, ne v hv]
    have late : started (.start w d :: h) w = h.length + 1 := if_pos rfl
    have due : countdown (.start w d :: h) w = some (d + 1) := if_pos rfl
    obtain ⟨here, here'⟩ := same e.id (by simp)
    rw [Watchdog.place]
    split_ifs with le
    · refine ⟨pos, here.trans time, fun v hv eq => ?_, ?_⟩
      · rw [here']
        rcases mem_cons.1 ((place_ids _ _ _ _).subset hv) with rfl | hv
        · have := started_le h e.id
          omega
        obtain ⟨there, there'⟩ := same v (mem_cons_of_mem _ hv)
        rw [there']
        exact order v hv (by rw [← here, ← there, eq])
      · rw [← lag]
        exact ih tail (fun hw => new (mem_cons_of_mem _ hw)) (by omega)
    -- the watchdogs behind fire later
    have split : now + (d + 1 - now : ℤ).toNat + (now + e.lag - (d + 1)).toNat =
        now + e.lag.toNat := by omega
    refine ⟨by simp only; omega, ?_, fun v hv eq => ?_, by simp only; omega, ?_, fun v hv eq => ?_, ?_⟩
    · rw [due]
      congr 1
      simp only
      omega
    · obtain ⟨k, hk, after⟩ : ∃ k, countdown h v = some k ∧ now + e.lag.toNat ≤ k := by
        rcases mem_cons.1 hv with rfl | hv
        · exact ⟨_, time, le_rfl⟩
        · exact tail.le hv
      rw [due, (same v hv).1, hk] at eq
      have := Option.some.inj eq
      omega
    · rw [here, time]
      exact congrArg some split.symm
    · obtain ⟨there, there'⟩ := same v (mem_cons_of_mem _ hv)
      rw [here', there']
      exact order v hv (by rw [← here, ← there, eq])
    refine Timed.congr ?_ fun v hv => same v (mem_cons_of_mem _ hv)
    rwa [split]

end NuttxRtos.Watchdog
