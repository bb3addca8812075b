import Mathlib.Algebra.Order.Ring.Int
import Mathlib.Data.List.Count

/-!
# Barriers

`pthread_barrier_wait` reads the number of threads at the barrier off the semaphore, whose value is
minus the number of threads that are blocked on it. A thread whose wait was interrupted gives its
count back and is away until it calls `sem_wait` again, so that a call that looks in between does
not see it.
-/

namespace NuttxRtos.Pthread.Barrier

open List

variable {τ : Type}

/-- A call of `pthread_barrier_wait`: the thread and the round. -/
abbrev Call (τ : Type) := τ × ℕ

/-- A call that has locked pre-emption and read the semaphore is about to wait, or it is in the loop
that frees the others, before a post or before the next `sem_getvalue`. -/
inductive Phase where
  | waits
  | frees (semcount : ℤ)
  | reads

/-- The calls blocked in `sem_wait`, away with `EINTR`, and with a count but not yet returned.
`returned` holds the rounds of the others, and whether they returned
`PTHREAD_BARRIER_SERIAL_THREAD`. -/
structure State (τ : Type) where
  avail : ℕ
  waiting : List (Call τ)
  away : List (Call τ)
  woken : List (Call τ)
  running : Option (Call τ × Phase)
  made : ℕ
  returned : List (ℕ × Bool)

namespace State

def init : State τ := ⟨0, [], [], [], none, 0, []⟩

def semcount (s : State τ) : ℤ := s.avail - s.waiting.length

def semWait (s : State τ) (c : Call τ) : State τ :=
  if 0 < s.avail then { s with avail := s.avail - 1, woken := c :: s.woken }
  else { s with waiting := c :: s.waiting }

/-- `sem_post` wakes a thread that waits; which one is left open. -/
def semPost [DecidableEq τ] (s : State τ) (c : Call τ) : State τ :=
  if s.waiting = [] then { s with avail := s.avail + 1 }
  else if c ∈ s.waiting then { s with waiting := s.waiting.erase c, woken := c :: s.woken }
  else s

/-- The calls at the barrier whose round is not complete. -/
def gathering (s : State τ) : List (Call τ) :=
  match s.running with
  | none => s.waiting ++ s.away
  | some (c, .waits) => c :: s.waiting ++ s.away
  | some _ => []

/-- The calls of complete rounds that have not returned. -/
def leaving (s : State τ) : List (Call τ) :=
  match s.running with
  | none | some (_, .waits) => s.woken
  | some (c, _) => c :: s.waiting ++ s.woken

def freer (s : State τ) : List (Call τ) :=
  match s.running with
  | none | some (_, .waits) => []
  | some (c, _) => [c]

end State

inductive Action (τ : Type) where
  | call (t : τ)
  | go (woken : Call τ)
  | interrupt (c : Call τ)
  | resume (c : Call τ)
  | finish (c : Call τ)

section

variable [DecidableEq τ] (count : BitVec 32)

/-- A step. Only interrupts come between those of the thread that has locked pre-emption. -/
def step (s : State τ) : Action τ → State τ
  | .call t =>
    if s.running.isNone ∧ ∀ c ∈ s.waiting ++ s.away ++ s.woken, c.1 ≠ t then
      { s with
        running := some ((t, s.made / count.toNat),
          if count.toInt ≤ 1 - s.semcount then .frees s.semcount else .waits)
        made := s.made + 1 }
    else s
  | .go woken =>
    match s.running with
    | none => s
    | some (c, .waits) => { s.semWait c with running := none }
    | some (c, .frees semcount) =>
      if semcount < 0 then { s.semPost woken with running := some (c, .reads) }
      else { s with running := none, returned := (c.2, true) :: s.returned }
    | some (c, .reads) => { s with running := some (c, .frees s.semcount) }
  | .interrupt c =>
    if c ∈ s.waiting then { s with waiting := s.waiting.erase c, away := c :: s.away } else s
  | .resume c =>
    if s.running.isNone ∧ c ∈ s.away then { s.semWait c with away := s.away.erase c } else s
  | .finish c =>
    if s.running.isNone ∧ c ∈ s.woken then
      { s with woken := s.woken.erase c, returned := (c.2, false) :: s.returned }
    else s

inductive Run (ok : State τ → Action τ → Prop) : State τ → Prop
  | init : Run ok .init
  | step {s : State τ} {a : Action τ} : Run ok s → ok s a → Run ok (step count s a)

/-- The count is positive as an `int`, no call looks at the semaphore while a thread is away, and no
wait is interrupted while the threads are freed. -/
def Regular (s : State τ) : Action τ → Prop
  | .call _ => 0 < count.toInt ∧ s.away = []
  | .interrupt _ => s.freer = []
  | _ => True

end

/-! ## Rounds -/

/-- Of each of the first `q` rounds all calls are leaving or have returned, and one of them is or
was the one that frees the others; the calls that gather are of the next round. -/
structure Rounds (n q : ℕ) (gathering leaving freer : List (Call τ)) (returned : List (ℕ × Bool)) :
    Prop where
  present : ∀ c ∈ gathering, c.2 = q
  left : ∀ c ∈ leaving, c.2 < q
  gone : ∀ e ∈ returned, e.1 < q
  complete : ∀ r < q, leaving.countP (·.2 = r) + returned.countP (·.1 = r) = n
  serial : ∀ r < q, freer.countP (·.2 = r) + returned.count (r, true) = 1

structure Inv (n : ℕ) (s : State τ) : Prop where
  avail : s.avail = 0
  length : s.gathering.length = s.made % n
  rounds : Rounds n (s.made / n) s.gathering s.leaving s.freer s.returned
  read : ∀ c v, s.running = some (c, .frees v) → v = s.semcount
  freed : ∀ c ∈ s.freer, s.away = [] ∧ ∀ d ∈ s.waiting, d.2 = c.2

variable {n q : ℕ} {gathering leaving freer : List (Call τ)}
    {returned : List (ℕ × Bool)} {c : Call τ}

theorem countP_below {α : Type} {l : List α} {f : α → ℕ} (below : ∀ a ∈ l, f a < q) :
    l.countP (f · = q) = 0 := by
  refine countP_eq_zero.2 fun a member => ?_
  simpa using Nat.ne_of_lt (below a member)

theorem countP_all {l : List (Call τ)} (all : ∀ c ∈ l, c.2 = q) (r : ℕ) :
    l.countP (·.2 = r) = if q = r then l.length else 0 := by
  split
  · exact countP_eq_length.2 (by grind)
  · exact countP_eq_zero.2 (by grind)

namespace Rounds

variable (rounds : Rounds n q gathering leaving freer returned)
include rounds

theorem perm {gathering' leaving' : List (Call τ)} (same : gathering'.Perm gathering)
    (same' : leaving'.Perm leaving) : Rounds n q gathering' leaving' freer returned where
  present := fun c member => rounds.present c (same.mem_iff.1 member)
  left := fun c member => rounds.left c (same'.mem_iff.1 member)
  gone := rounds.gone
  complete := fun r lt => by rw [same'.countP_eq, rounds.complete r lt]
  serial := rounds.serial

theorem arrive (round : c.2 = q) : Rounds n q (c :: gathering) leaving freer returned where
  __ := rounds
  present := forall_mem_cons.2 ⟨round, rounds.present⟩

theorem arrive_last (last : gathering.length + 1 = n) (round : c.2 = q) (none : freer = []) :
    Rounds n (q + 1) [] (c :: gathering ++ leaving) [c] returned := by
  obtain ⟨present, left, gone, complete, serial⟩ := rounds
  have all := countP_all (forall_mem_cons.2 ⟨round, present⟩)
  refine ⟨nofun, by grind, fun e member => Nat.lt_succ_of_lt (gone e member), ?_, ?_⟩
  · intro r lt
    rw [countP_append, all r]
    split
    · next same =>
      subst same
      rw [countP_below left, countP_below gone, length_cons, last]
    · rw [Nat.zero_add, complete r (by omega)]
  intro r lt
  by_cases same : q = r
  · subst same
    have fresh : returned.count (q, true) = 0 :=
      count_eq_zero.2 fun member => Nat.lt_irrefl _ (gone _ member)
    simp [fresh, round]
  · simpa [round, same, none] using serial r (by omega)

end Rounds

theorem Rounds.finish {b : Bool}
    (rounds : Rounds n q gathering (c :: leaving) (if b then c :: freer else freer) returned) :
    Rounds n q gathering leaving freer ((c.2, b) :: returned) := by
  obtain ⟨present, left, gone, complete, serial⟩ := rounds
  have round := left c mem_cons_self
  refine ⟨present, fun d member => left d (mem_cons_of_mem _ member),
    forall_mem_cons.2 ⟨round, gone⟩, fun r lt => ?_, fun r lt => ?_⟩
  · rw [← complete r lt, countP_cons, countP_cons]
    dsimp only
    omega
  rw [← serial r lt]
  cases b with
  | false => simp
  | true =>
    rw [if_pos rfl, countP_cons, count_cons]
    simp
    omega

/-! ## Runs -/

variable {s : State τ} {count : BitVec 32}

theorem Inv.call (inv : Inv count.toNat s) (positive : 0 < count.toInt) (here : s.away = [])
    (idle : s.running = none) (t : τ) :
    Inv count.toNat { s with
      running := some ((t, s.made / count.toNat),
        if count.toInt ≤ 1 - s.semcount then .frees s.semcount else .waits)
      made := s.made + 1 } := by
  obtain ⟨avail, length, rounds, -, -⟩ := inv
  have value : count.toInt = count.toNat := by
    rw [BitVec.toInt_eq_toNat_cond] at positive ⊢
    split at positive <;> simp_all
    omega
  have below := Nat.mod_lt s.made (show 0 < count.toNat by omega)
  have parts := Nat.div_add_mod s.made count.toNat
  have gather : s.gathering = s.waiting := by rw [State.gathering, idle, here, append_nil]
  have leave : s.leaving = s.woken := by rw [State.leaving, idle]
  have free : s.freer = [] := by rw [State.freer, idle]
  rw [gather] at length
  rw [gather, leave, free] at rounds
  have seen : count.toInt ≤ 1 - s.semcount ↔ s.made % count.toNat + 1 = count.toNat := by
    rw [State.semcount, avail, value, ← length]
    omega
  by_cases last : s.made % count.toNat + 1 = count.toNat
  · have next : (s.made + 1) / count.toNat = s.made / count.toNat + 1 ∧
        (s.made + 1) % count.toNat = 0 :=
      (Nat.div_mod_unique (by omega)).2 ⟨by rw [Nat.mul_add]; omega, by omega⟩
    rw [if_pos (seen.2 last)]
    refine ⟨avail, next.2.symm, ?_, ?_, ?_⟩
    · rw [next.1]
      exact rounds.arrive_last (length ▸ last) rfl rfl
    · rintro _ _ ⟨⟩
      rfl
    · exact forall_mem_singleton.2 ⟨here, rounds.present⟩
  have next : (s.made + 1) / count.toNat = s.made / count.toNat ∧
      (s.made + 1) % count.toNat = s.made % count.toNat + 1 :=
    (Nat.div_mod_unique (by omega)).2 ⟨by omega, by omega⟩
  rw [if_neg (last ∘ seen.1)]
  refine ⟨avail, ?_, ?_, nofun, nofun⟩
  · rw [next.2, ← length, State.gathering, here]
    simp
  rw [next.1]
  change Rounds _ _ ((t, _) :: s.waiting ++ s.away) s.woken [] s.returned
  rw [here, append_nil]
  exact rounds.arrive rfl

theorem State.freer_sublist (s : State τ) : s.freer.Sublist s.leaving := by
  rcases s with ⟨avail, waiting, away, woken, _ | ⟨c, _ | v | _⟩, made, returned⟩
  · exact nil_sublist _
  · exact nil_sublist _
  all_goals exact (nil_sublist _).cons_cons c

theorem Inv.waiting_lt (inv : Inv n s) (positive : 0 < n) : s.waiting.length < n := by
  obtain ⟨avail, waiting, away, woken, running, made, returned⟩ := s
  obtain ⟨-, length, rounds, -, freed⟩ := inv
  have below := Nat.mod_lt made positive
  change waiting.length < n
  have free (c : Call τ) (same : ∀ d ∈ waiting, d.2 = c.2)
      (rounds : Rounds n (made / n) [] (c :: waiting ++ woken) [c] returned) :
        waiting.length < n := by
    have := rounds.complete c.2 (rounds.left c mem_cons_self)
    rw [countP_append, countP_all (forall_mem_cons.2 ⟨rfl, same⟩), if_pos rfl] at this
    simp only [length_cons] at this
    omega
  rcases running with _ | ⟨c, _ | v | _⟩
  · simp only [State.gathering, length_append] at length
    omega
  · simp only [State.gathering, length_append, length_cons] at length
    omega
  all_goals exact free c (freed c mem_cons_self).2 rounds

variable [DecidableEq τ]

/-- The semaphore has the value that the loop has read, so it posts as long as a thread waits. -/
theorem Inv.go (inv : Inv count.toNat s) (u : Call τ) : Inv count.toNat (step count s (.go u)) := by
  obtain ⟨avail, waiting, away, woken, running, made, returned⟩ := s
  obtain ⟨rfl, length, rounds, read, freed⟩ := inv
  rcases running with _ | ⟨c, _ | v | _⟩
  · exact ⟨rfl, length, rounds, read, freed⟩
  · exact ⟨rfl, length, rounds, nofun, nofun⟩
  · have value : v = 0 - (waiting.length : ℤ) := read c v rfl
    obtain ⟨rfl, same⟩ : away = [] ∧ ∀ d ∈ waiting, d.2 = c.2 := freed c mem_cons_self
    dsimp only [Barrier.step, State.semPost]
    split
    · rw [if_neg (by rintro rfl; simp at value; omega)]
      split
      · next member =>
        refine ⟨rfl, length, rounds.perm .rfl (.cons _ ?_), nofun, ?_⟩
        · exact perm_middle.trans ((perm_cons_erase member).symm.append_right woken)
        · exact forall_mem_singleton.2 ⟨rfl, fun d still => same d (mem_of_mem_erase still)⟩
      · exact ⟨rfl, length, rounds, nofun, freed⟩
    obtain rfl : waiting = [] := eq_nil_of_length_eq_zero (by omega)
    refine ⟨rfl, length, ?_, nofun, nofun⟩
    exact Rounds.finish (b := true) rounds
  refine ⟨rfl, length, rounds, ?_, freed⟩
  rintro _ _ ⟨⟩
  rfl

theorem Inv.interrupt (inv : Inv n s) (free : s.freer = []) (member : c ∈ s.waiting) :
    Inv n { s with waiting := s.waiting.erase c, away := c :: s.away } := by
  obtain ⟨avail, waiting, away, woken, running, made, returned⟩ := s
  obtain ⟨rfl, length, rounds, read, freed⟩ := inv
  have moved : (waiting.erase c ++ c :: away).Perm (waiting ++ away) :=
    perm_middle.trans ((perm_cons_erase member).symm.append_right away)
  rcases running with _ | ⟨d, _ | v | _⟩
  · exact ⟨rfl, moved.length_eq.trans length, rounds.perm moved .rfl, nofun, nofun⟩
  · exact ⟨rfl, (moved.cons d).length_eq.trans length,
      rounds.perm (moved.cons d) .rfl, nofun, nofun⟩
  all_goals exact absurd free nofun

theorem Inv.resume (inv : Inv n s) (idle : s.running = none) (member : c ∈ s.away) :
    Inv n { s.semWait c with away := s.away.erase c } := by
  obtain ⟨avail, waiting, away, woken, running, made, returned⟩ := s
  obtain ⟨rfl, length, rounds, read, freed⟩ := inv
  obtain rfl : running = none := idle
  have moved : (c :: waiting ++ away.erase c).Perm (waiting ++ away) :=
    perm_middle.symm.trans ((perm_cons_erase member).symm.append_left waiting)
  exact ⟨rfl, moved.length_eq.trans length, rounds.perm moved .rfl, nofun, nofun⟩

theorem Inv.finish (inv : Inv n s) (idle : s.running = none) (member : c ∈ s.woken) :
    Inv n { s with woken := s.woken.erase c, returned := (c.2, false) :: s.returned } := by
  obtain ⟨avail, waiting, away, woken, running, made, returned⟩ := s
  obtain ⟨rfl, length, rounds, read, freed⟩ := inv
  obtain rfl : running = none := idle
  refine ⟨rfl, length, ?_, nofun, nofun⟩
  exact Rounds.finish (b := false) (rounds.perm .rfl (perm_cons_erase member).symm)

theorem Inv.step (inv : Inv count.toNat s) {a : Action τ} (regular : Regular count s a) :
    Inv count.toNat (step count s a) := by
  cases a with
  | call t =>
    rw [Barrier.step]
    split
    · next idle =>
      exact inv.call regular.1 regular.2 (Option.isNone_iff_eq_none.1 idle.1) t
    · exact inv
  | go u => exact inv.go u
  | interrupt c =>
    rw [Barrier.step]
    split
    · next member =>
      exact inv.interrupt regular member
    · exact inv
  | resume c =>
    rw [Barrier.step]
    split
    · next back =>
      exact inv.resume (Option.isNone_iff_eq_none.1 back.1) back.2
    · exact inv
  | finish c =>
    rw [Barrier.step]
    split
    · next woken =>
      exact inv.finish (Option.isNone_iff_eq_none.1 woken.1) woken.2
    · exact inv

theorem Run.inv (run : Run count (Regular count) s) : Inv count.toNat s := by
  induction run with
  | init =>
    refine ⟨rfl, (Nat.zero_mod _).symm, ?_, nofun, nofun⟩
    change Rounds _ (0 / _) [] [] [] []
    rw [Nat.zero_div]
    exact ⟨nofun, nofun, nofun, nofun, nofun⟩
  | step _ regular ih => exact ih.step regular

/-- A call returns after all calls of its round were made, one of a round returns
`PTHREAD_BARRIER_SERIAL_THREAD`, and fewer threads are blocked than a round has. -/
theorem barrier_rounds (run : Run count (Regular count) s) (positive : 0 < count.toNat) :
    (∀ e ∈ s.returned, count.toNat * (e.1 + 1) ≤ s.made) ∧
    (∀ r, s.returned.countP (·.1 = r) ≤ count.toNat ∧ s.returned.count (r, true) ≤ 1 ∧
      (s.returned.countP (·.1 = r) = count.toNat → s.returned.count (r, true) = 1)) ∧
    s.waiting.length < count.toNat := by
  have rounds := run.inv.rounds
  refine ⟨fun e member => ?_, fun r => ?_, run.inv.waiting_lt positive⟩
  · exact Nat.le_trans (Nat.mul_le_mul_left _ (rounds.gone e member)) (Nat.mul_div_le _ _)
  have part := s.freer_sublist.countP_le (p := (·.2 = r))
  by_cases old : r < s.made / count.toNat
  · have := rounds.complete r old
    have := rounds.serial r old
    omega
  have absent (e : ℕ × Bool) (member : e ∈ s.returned) : e.1 ≠ r := by
    have := rounds.gone e member
    omega
  rw [countP_eq_zero.2 (by simpa using absent), count_eq_zero.2 fun member => absent _ member rfl]
  omega

/-- Two threads at a barrier for two: the first one waits, is interrupted and waits again, and the
second one frees it. -/
theorem barrier_rounds_interrupted : ∃ s : State Bool, Run 2 (Regular 2) s ∧
    s.returned = [(0, false), (0, true)] ∧ s.returned.count (0, true) = 1 := by
  let c : Call Bool := (false, 0)
  have run : Run 2 (Regular 2) _ := (((((((((Run.init.step (a := .call false) ⟨by decide, rfl⟩).step
    (a := .go c) trivial).step (a := .interrupt c) rfl).step (a := .resume c) trivial).step
    (a := .call true) ⟨by decide, rfl⟩).step (a := .go c) trivial).step (a := .go c) trivial).step
    (a := .go c) trivial).step (a := .finish c) trivial)
  exact ⟨_, run, by decide, ((barrier_rounds run (by decide)).2.1 0).2.2 (by decide)⟩

/-- The first of two threads is away when the second one comes, and both wait. -/
theorem all_blocked : ∃ s : State Bool, Run 2 (fun _ _ => True) s ∧ s.waiting.length = 2 := by
  let c : Call Bool := (false, 0)
  exact ⟨_, (((((Run.init.step (a := .call false) trivial).step (a := .go c) trivial).step
    (a := .interrupt c) trivial).step (a := .call true) trivial).step (a := .go c) trivial).step
    (a := .resume c) trivial, rfl⟩

end NuttxRtos.Pthread.Barrier
