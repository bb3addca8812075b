import Mathlib.Data.Int.ModEq
import NuttxRtos.Lib.Dq

/-!
# Work queues

`work_queue` puts a work structure at the end of a queue, `work_cancel` takes it off, and the worker
threads of the queue walk over it in `work_process` and run what is ready. A walk is one critical
section that ends where a callback is called; the worker field says whether the structure is queued,
but not on which queue.
-/

namespace NuttxRtos.Wqueue

open Function Option List

variable {ω κ τ φ α : Type}

structure Work (φ α : Type) where
  worker : Option φ
  arg : α
  qtime : ℕ
  delay : ℕ

/-- Where a worker thread is: outside `work_process`, at an entry of the queue, in a callback or
waiting, for a number of ticks or for a signal only. -/
inductive Pc (ω : Type) where
  | outside
  | walking (work : Option ω) (stick next : ℕ)
  | calling (stick next : ℕ)
  | waiting (timeout : Option ℕ)

/-- A call of `work_queue`, at the time of the system. -/
structure Queuing (ω κ φ α : Type) where
  queue : κ
  work : ω
  worker : φ
  arg : α
  delay : ℕ
  time : ℕ

structure Invocation (φ α : Type) where
  number : ℕ
  worker : φ
  arg : α
  time : ℕ

/-- The queues and the worker threads, of which one at most is in the critical section of its walk.
`now` counts all ticks. The history is the calls of `work_queue`, the last one of each structure,
those cancelled and the calls of callbacks. -/
structure Queues (ω κ τ φ α : Type) where
  links : Dq.Links ω κ
  work : ω → Work φ α
  pc : τ → Pc ω
  lock : Option τ
  now : ℕ
  queuings : List (Queuing ω κ φ α)
  latest : ω → ℕ
  cancelled : List ℕ
  invocations : List (Invocation φ α)

/-- The bits of `clock_t`, and the queue and index of each worker thread. -/
structure Threads (κ τ : Type) where
  bits : ℕ
  queue : τ → κ
  wndx : τ → ℕ

section

variable [DecidableEq ω] [DecidableEq κ] [DecidableEq τ]
variable (c : Threads κ τ) (s : Queues ω κ τ φ α)

def Threads.ticks : ℕ := s.now % 2 ^ c.bits

/-- The difference of two tick counts. -/
def Threads.minus (a b : ℕ) : ℕ := (a + 2 ^ c.bits - b) % 2 ^ c.bits

def Threads.delayMax : ℕ := 2 ^ c.bits - 1

def workQqueue (k : κ) (w : ω) (worker : φ) (arg : α) (delay : ℕ) : Option (Queues ω κ τ φ α) :=
  let links := if (s.work w).worker.isSome then Dq.rem s.links w k else s.links
  (Dq.addlast links w k).map fun links =>
    { s with
      links
      work := update s.work w ⟨some worker, arg, c.ticks s, delay⟩
      queuings := s.queuings ++ [⟨k, w, worker, arg, delay, s.now⟩]
      latest := update s.latest w s.queuings.length }

/-- The entry is taken off the queue and marked as available. -/
def dequeue (k : κ) (w : ω) : Queues ω κ τ φ α :=
  { s with
    links := Dq.rem s.links w k
    work := update s.work w { s.work w with worker := none } }

/-- `work_qcancel`, and whether it returns `OK`. -/
def workQcancel (k : κ) (w : ω) : Queues ω κ τ φ α × Bool :=
  if (s.work w).worker.isSome then
    ({ dequeue s k w with cancelled := s.cancelled ++ [s.latest w] }, true)
  else (s, false)

def workProcess (t : τ) (w : ω) (stick next : ℕ) : Queues ω κ τ φ α :=
  let work := s.work w
  let ctick := c.ticks s
  let elapsed := c.minus ctick work.qtime
  if work.delay ≤ elapsed then
    match work.worker with
    | some worker =>
      { dequeue s (c.queue t) w with
        lock := none
        pc := update s.pc t (.calling stick next)
        invocations := s.invocations ++ [⟨s.latest w, worker, work.arg, s.now⟩] }
    | none =>
      let links := Dq.rem s.links w (c.queue t)
      { s with links, pc := update s.pc t (.walking (links.flink w) stick next) }
  else
    let elapsed := (elapsed + c.minus ctick stick) % 2 ^ c.bits
    let remaining := work.delay - if work.delay < elapsed then work.delay else elapsed
    let next := if remaining < next then remaining else next
    { s with pc := update s.pc t (.walking (s.links.flink w) stick next) }

def fromHead (t : τ) (stick next : ℕ) : Queues ω κ τ φ α :=
  { s with
    lock := some t
    pc := update s.pc t (.walking (s.links.head (c.queue t)) stick next) }

def sleep (t : τ) (next : ℕ) : Queues ω κ τ φ α :=
  { s with
    lock := none
    pc := update s.pc t
      (.waiting (if 0 < c.wndx t ∨ next = c.delayMax then none else some next)) }

/-! ## Runs -/

inductive Action (ω κ τ φ α : Type) where
  | tick
  | queue (k : κ) (w : ω) (worker : φ) (arg : α) (delay : ℕ)
  | cancel (k : κ) (w : ω)
  | thread (t : τ)

/-- The thread goes on: it enters the critical section, looks at an entry, waits or wakes up. -/
def goOn (t : τ) : Option (Queues ω κ τ φ α) :=
  match s.pc t with
  | .outside => if s.lock.isNone then some (fromHead c s t (c.ticks s) c.delayMax) else none
  | .walking (some w) stick next => some (workProcess c s t w stick next)
  | .walking none _ next => some (sleep c s t next)
  | .calling stick next => if s.lock.isNone then some (fromHead c s t stick next) else none
  | .waiting _ => if s.lock.isNone then some { s with pc := update s.pc t .outside } else none

/-- A step, unless the action has to wait for a critical section. -/
def step : Action ω κ τ φ α → Option (Queues ω κ τ φ α)
  | .tick => some { s with now := s.now + 1 }
  | .queue k w worker arg delay =>
    if s.lock.isNone then workQqueue c s k w worker arg delay else none
  | .cancel k w => if s.lock.isNone then some (workQcancel s k w).1 else none
  | .thread t => goOn c s t

/-- The queue that the work was last put on. -/
def home (w : ω) : Option κ := (s.queuings[s.latest w]?).map Queuing.queue

/-- Work that is queued is cancelled with the queue that it was put on. -/
def CancelsAtHome : Action ω κ τ φ α → Prop
  | .cancel k w => (s.work w).worker ≠ none → home s w = some k
  | _ => True

/-- Work that is queued is queued again on the queue that it was put on. -/
def RequeuesAtHome : Action ω κ τ φ α → Prop
  | .queue k w .. => (s.work w).worker ≠ none → home s w = some k
  | _ => True

/-- Nothing is queued, and no thread has begun. -/
structure Fresh : Prop where
  links : s.links = ⟨fun _ => none, fun _ => none, fun _ => none, fun _ => none⟩
  work : ∀ w, (s.work w).worker = none
  pc : ∀ t, s.pc t = .outside
  lock : s.lock = none
  queuings : s.queuings = []
  cancelled : s.cancelled = []
  invocations : s.invocations = []

inductive Works (permitted : Queues ω κ τ φ α → Action ω κ τ φ α → Prop) :
    Queues ω κ τ φ α → Prop
  | start {s : Queues ω κ τ φ α} (fresh : Fresh s) : Works permitted s
  | step {s s' : Queues ω κ τ φ α} {a : Action ω κ τ φ α} (before : Works permitted s)
      (ok : permitted s a) (next : step c s a = some s') : Works permitted s'

/-- The work is met on the way from the head of the queue. -/
def OnQueue (k : κ) (w : ω) : Prop :=
  ∃ l, Chain.Path s.links.flink (s.links.head k) l ∧ w ∈ l

/-- The numbers of the queuings whose callback was called. -/
def invoked : List ℕ := s.invocations.map Invocation.number

structure Lawful : Prop where
  linked : ∀ w, (∃ k, OnQueue s k w) ↔ (s.work w).worker ≠ none
  once : (invoked s).Nodup
  faithful : ∀ i ∈ s.invocations, ∃ q, s.queuings[i.number]? = some q ∧ q.worker = i.worker ∧
    q.arg = i.arg ∧ q.time + q.delay ≤ i.time
  cancelled : ∀ n ∈ s.cancelled, n ∉ invoked s

end

/-! ## What holds in every state -/

section

variable (c : Threads κ τ) (s : Queues ω κ τ φ α)

/-- The queuing that a work structure stands for. -/
structure Pending (w : ω) (q : Queuing ω κ φ α) : Prop where
  latest : s.queuings[s.latest w]? = some q
  work : q.work = w
  worker : (s.work w).worker = some q.worker
  arg : (s.work w).arg = q.arg
  delay : (s.work w).delay = q.delay
  qtime : (s.work w).qtime = q.time % 2 ^ c.bits
  past : q.time ≤ s.now
  waits : s.latest w ∉ s.cancelled ∧ s.latest w ∉ invoked s

structure Inv (lists : κ → List ω) : Prop where
  queues : Dq.Queues s.links lists
  pending : ∀ w, (s.work w).worker ≠ none → ∃ q, Pending c s w q
  listed : ∀ k w, w ∈ lists k ↔ (s.work w).worker ≠ none ∧ home s w = some k
  walker : ∀ t o stick next, s.pc t = .walking o stick next →
    s.lock = some t ∧ ∀ w ∈ o, w ∈ lists (c.queue t)
  once : (invoked s).Nodup
  faithful : ∀ i ∈ s.invocations, ∃ q, s.queuings[i.number]? = some q ∧ q.worker = i.worker ∧
    q.arg = i.arg ∧ q.time + q.delay ≤ i.time
  cancelled : ∀ n ∈ s.cancelled, n < s.queuings.length ∧ n ∉ invoked s

end

variable {c : Threads κ τ} {s : Queues ω κ τ φ α} {lists : κ → List ω} {w : ω} {k : κ}

theorem Inv.lawful (inv : Inv c s lists) : Lawful s := by
  refine ⟨fun w => ⟨?_, fun queued => ?_⟩, inv.once, inv.faithful, fun n inside =>
    (inv.cancelled n inside).2⟩
  · rintro ⟨k, l, path, member⟩
    rw [path.unique (inv.queues.path k)] at member
    exact ((inv.listed k w).1 member).1
  obtain ⟨q, pending⟩ := inv.pending w queued
  refine ⟨q.queue, lists q.queue, inv.queues.path _, (inv.listed _ w).2 ⟨queued, ?_⟩⟩
  rw [home, pending.latest, map_some]

theorem minus_le {time now : ℕ} (past : time ≤ now) (c : Threads κ τ) :
    c.minus (now % 2 ^ c.bits) (time % 2 ^ c.bits) ≤ now - time := by
  obtain ⟨d, rfl⟩ := Nat.exists_eq_add_of_le past
  have same : (time + d) % 2 ^ c.bits + 2 ^ c.bits - time % 2 ^ c.bits ≡ d [MOD 2 ^ c.bits] := by
    apply Nat.ModEq.add_right_cancel' (time % 2 ^ c.bits)
    rw [Nat.sub_add_cancel (by omega), Nat.ModEq, Nat.add_mod_right, Nat.mod_mod, Nat.add_mod_mod,
      Nat.add_comm]
  rw [Nat.add_sub_cancel_left, Threads.minus, same]
  exact Nat.mod_le ..

theorem Pending.latest_ne {v : ω} {q r : Queuing ω κ φ α} (pending : Pending c s w q)
    (other : Pending c s v r) (ne : v ≠ w) : s.latest v ≠ s.latest w := by
  intro same
  have both := other.latest
  rw [same, pending.latest, Option.some.injEq] at both
  exact ne (by rw [← other.work, ← both, pending.work])

theorem Fresh.inv (fresh : Fresh s) : Inv c s fun _ => [] := by
  refine ⟨?_, ?_, ?_, ?_, ?_, ?_, ?_⟩
  · rw [fresh.links]
    exact ⟨fun k => rfl, fun k => rfl, fun k => trivial, by simp, by simp⟩
  all_goals simp [fresh.work, fresh.pc, invoked, fresh.invocations, fresh.cancelled]

variable {pc : τ → Pc ω} {t : τ} {s' : Queues ω κ τ φ α}

theorem Pending.congr {q : Queuing ω κ φ α} (p : Pending c s w q)
    (queuing : s'.queuings[s'.latest w]? = s.queuings[s.latest w]?) (work : s'.work w = s.work w)
    (now : s.now ≤ s'.now) (waits : s'.latest w ∉ s'.cancelled ∧ s'.latest w ∉ invoked s') :
    Pending c s' w q :=
  ⟨queuing.trans p.latest, p.work, work ▸ p.worker, work ▸ p.arg, work ▸ p.delay, work ▸ p.qtime,
    p.past.trans now, waits⟩

section

variable (inv : Inv c s lists)
include inv

/-- Only the walk of a thread changes, and it is at an entry of its queue or nowhere. -/
theorem Inv.walk {lock : Option τ}
    (walker : ∀ t o stick next, pc t = .walking o stick next → lock = some t ∧ ∀ w ∈ o, w ∈ lists (c.queue t)) :
    Inv c { s with lock, pc } lists :=
  ⟨inv.queues, fun w busy =>
    have ⟨q, p⟩ := inv.pending w busy
    ⟨q, p.congr rfl rfl le_rfl p.waits⟩, inv.listed, walker, inv.once, inv.faithful, inv.cancelled⟩

section

variable [DecidableEq τ]

theorem Inv.walker_update {t : τ} {pc : Pc ω} (lock : Option τ)
    (mine : ∀ u, s.lock = some u → u = t) (next : ∀ o stick next, pc = .walking o stick next →
      lock = some t ∧ ∀ w ∈ o, w ∈ lists (c.queue t)) :
    ∀ u o stick n, update s.pc t pc u = .walking o stick n →
      lock = some u ∧ ∀ w ∈ o, w ∈ lists (c.queue u) := by
  intro u o stick n walking
  by_cases same : u = t
  · subst same
    rw [update_self] at walking
    exact next o stick n walking
  · rw [update_of_ne same] at walking
    exact absurd (mine u (inv.walker u _ _ _ walking).1) same

theorem Inv.fromHead (free : s.lock = none) (t : τ) (stick next : ℕ) :
    Inv c (fromHead c s t stick next) lists := by
  refine inv.walk (inv.walker_update (some t) (by simp [free]) ?_)
  rintro o _ _ ⟨⟩
  refine ⟨rfl, fun w first => ?_⟩
  rw [inv.queues.head] at first
  exact mem_of_head? first

end

variable [DecidableEq ω] [DecidableEq κ]

theorem Inv.take (member : w ∈ lists k) (cs : List ℕ)
    (is : List (Invocation φ α)) (one : cs ++ is.map Invocation.number = [s.latest w])
    (faithful : ∀ i ∈ is, ∃ q, s.queuings[i.number]? = some q ∧ q.worker = i.worker ∧ q.arg = i.arg ∧ q.time + q.delay ≤ i.time)
    (lock : Option τ) (still : ∀ t o stick next, pc t ≠ .walking o stick next) :
    Inv c { dequeue s k w with
      cancelled := s.cancelled ++ cs, invocations := s.invocations ++ is, lock, pc }
      (update lists k ((lists k).erase w)) := by
  obtain ⟨queued, here⟩ := (inv.listed k w).1 member
  obtain ⟨q, pending⟩ := inv.pending w queued
  have within : s.latest w < s.queuings.length := (List.getElem?_eq_some_iff.1 pending.latest).1
  have nodup := inv.queues.nodup k
  refine ⟨inv.queues.rem member, fun v busy => ?_, fun j v => ?_,
    fun t o stick next walking => absurd walking (still t o stick next), ?_, ?_, ?_⟩
  · have ne : v ≠ w := by
      rintro rfl
      simp [dequeue] at busy
    simp only [dequeue, update_of_ne ne] at busy
    obtain ⟨r, other⟩ := inv.pending v busy
    have apart := pending.latest_ne other ne
    refine ⟨r, other.congr rfl (update_of_ne ne ..) le_rfl ?_⟩
    have waits := other.waits
    have none : s.latest v ∉ cs ++ is.map Invocation.number := by simpa [one] using apart
    simp only [mem_append, invoked, map_append, dequeue] at waits none ⊢
    grind
  · have listed := inv.listed j v
    simp only [home, dequeue, update_apply] at listed here ⊢
    by_cases same : j = k <;> by_cases ne : v = w <;> grind
  · have waits := pending.waits.2
    have once := inv.once
    simp only [invoked, map_append] at waits once ⊢
    rcases append_eq_singleton_iff.1 one with ⟨-, last⟩ | ⟨-, last⟩
    · rw [last]
      exact nodup_append.2 ⟨once, nodup_singleton _, by grind⟩
    · rwa [last, append_nil]
  · intro i inside
    exact (mem_append.1 inside).elim (inv.faithful i) (faithful i)
  intro n inside
  have old := inv.cancelled n
  have waits := pending.waits
  simp only [invoked, dequeue, map_append, mem_append] at old waits inside ⊢
  rcases append_eq_singleton_iff.1 one with ⟨left, right⟩ | ⟨left, right⟩ <;>
    rw [left] at inside <;> rw [right] <;> grind

theorem Inv.put (free : s.lock = none)
    (same : (s.work w).worker ≠ none → home s w = some k) (worker : φ) (arg : α) (delay : ℕ) :
    ∃ s' lists', workQqueue c s k w worker arg delay = some s' ∧ Inv c s' lists' := by
  -- the structure is on no queue when it is added
  have off : ∃ lists', Dq.Queues
      (if (s.work w).worker.isSome then Dq.rem s.links w k else s.links) lists' ∧
      ∀ j v, v ∈ lists' j ↔ v ≠ w ∧ v ∈ lists j := by
    split
    · next queued =>
      have member := (inv.listed k w).2 ⟨by grind, same (by grind)⟩
      refine ⟨_, inv.queues.rem member, fun j v => ?_⟩
      have alone := inv.queues.alone j k w
      have nodup := inv.queues.nodup k
      grind
    next idle =>
    refine ⟨lists, inv.queues, fun j v => ?_⟩
    have listed := inv.listed j v
    rw [Bool.not_eq_true, isSome_eq_false_iff, isNone_iff_eq_none] at idle
    grind
  obtain ⟨lists', queues, members⟩ := off
  obtain ⟨links, added, queues⟩ := queues.addlast (k := k) (x := w) fun j inside =>
    ((members j w).1 inside).1 rfl
  refine ⟨{ s with
      links
      work := update s.work w ⟨some worker, arg, c.ticks s, delay⟩
      queuings := s.queuings ++ [⟨k, w, worker, arg, delay, s.now⟩]
      latest := update s.latest w s.queuings.length }, _,
    by simp only [workQqueue, added, map_some], queues, fun v busy => ?_, fun j v => ?_,
    fun t o stick next walking => ?_, inv.once, fun i inside => ?_, fun n inside => ?_⟩
  · by_cases ne : v = w
    · subst ne
      refine ⟨⟨k, v, worker, arg, delay, s.now⟩, ?_, rfl, ?_, ?_, ?_, ?_, le_rfl, ?_⟩
      · simp
      · simp
      · simp
      · simp
      · simp [Threads.ticks]
      simp only [update_self]
      refine ⟨fun gone => lt_irrefl _ (inv.cancelled _ gone).1, fun gone => ?_⟩
      obtain ⟨i, inside, number⟩ := mem_map.1 gone
      obtain ⟨q, found, -⟩ := inv.faithful i inside
      exact ne_of_lt (List.getElem?_eq_some_iff.1 found).1 number
    simp only [update_of_ne ne] at busy
    obtain ⟨r, other⟩ := inv.pending v busy
    have within := (List.getElem?_eq_some_iff.1 other.latest).1
    refine ⟨r, other.congr ?_ (update_of_ne ne ..) le_rfl ?_⟩
    · simp [ne, getElem?_append_left within]
    · simpa [ne, invoked] using other.waits
  · have listed := inv.listed j v
    have pending := inv.pending v
    simp only [home, update_apply] at listed ⊢
    by_cases ne : v = w
    · by_cases here : j = k <;> grind
    by_cases busy : (s.work v).worker = none
    · by_cases here : j = k <;> grind
    obtain ⟨q, pending⟩ := pending busy
    have within := (List.getElem?_eq_some_iff.1 pending.latest).1
    by_cases here : j = k <;> grind
  · rw [(inv.walker t o stick next walking).1] at free
    cases free
  · obtain ⟨q, found, rest⟩ := inv.faithful i inside
    exact ⟨q, (getElem?_append_left (List.getElem?_eq_some_iff.1 found).1).trans found, rest⟩
  · obtain ⟨within, out⟩ := inv.cancelled n inside
    exact ⟨by simp; omega, out⟩

variable [DecidableEq τ]

theorem Inv.process {stick next : ℕ} (walking : s.pc t = .walking (some w) stick next) :
    ∃ lists', Inv c (workProcess c s t w stick next) lists' := by
  obtain ⟨lock, member⟩ := inv.walker t _ _ _ walking
  have member := member w rfl
  have mine : ∀ u, s.lock = some u → u = t := fun u other => by
    rw [lock, Option.some.injEq] at other
    exact other.symm
  obtain ⟨q, pending⟩ := inv.pending w ((inv.listed _ w).1 member).1
  unfold workProcess
  dsimp only
  split
  · next ready =>
    rw [pending.worker]
    have still : ∀ u o a b, update s.pc t (.calling stick next) u ≠ .walking o a b :=
      fun u o a b again =>
        nomatch (inv.walker_update none mine (by rintro _ _ _ ⟨⟩) u o a b again).1
    have taken := inv.take member [] [⟨s.latest w, q.worker, (s.work w).arg, s.now⟩] rfl
      (fun i inside => ?_) none still
    · rw [append_nil] at taken
      exact ⟨_, taken⟩
    rw [mem_singleton.1 inside]
    refine ⟨q, pending.latest, rfl, pending.arg.symm, ?_⟩
    have early := minus_le pending.past c
    rw [← pending.qtime, ← Threads.ticks] at early
    rw [pending.delay] at ready
    have past := pending.past
    change q.time + q.delay ≤ s.now
    omega
  refine ⟨lists, inv.walk (inv.walker_update s.lock mine ?_)⟩
  rintro o _ _ ⟨⟩
  exact ⟨lock, fun v next => inv.queues.flink_mem member next⟩

theorem Inv.goOn (next : goOn c s t = some s') : ∃ lists', Inv c s' lists' := by
  unfold Wqueue.goOn at next
  cases place : s.pc t with
  | outside | calling =>
    simp only [place, ite_none_right_eq_some, Option.some.injEq, isNone_iff_eq_none]
      at next
    exact ⟨lists, next.2 ▸ inv.fromHead next.1 ..⟩
  | walking o stick n =>
    obtain ⟨lock, -⟩ := inv.walker t _ _ _ place
    cases o with
    | some w =>
      simp only [place, Option.some.injEq] at next
      exact next ▸ inv.process place
    | none =>
      simp only [place, Option.some.injEq] at next
      refine ⟨lists, next ▸ inv.walk (inv.walker_update none (by simp [lock]) ?_)⟩
      rintro _ _ _ ⟨⟩
  | waiting timeout =>
    simp only [place, ite_none_right_eq_some, Option.some.injEq, isNone_iff_eq_none]
      at next
    refine ⟨lists, next.2 ▸ inv.walk (inv.walker_update s.lock (by simp [next.1]) ?_)⟩
    rintro _ _ _ ⟨⟩

theorem Inv.step {a : Action ω κ τ φ α} (cancels : CancelsAtHome s a)
    (requeues : RequeuesAtHome s a) (next : step c s a = some s') : ∃ lists', Inv c s' lists' := by
  cases a with
  | tick =>
    cases next
    refine ⟨lists, inv.queues, fun w busy => ?_, inv.listed, inv.walker, inv.once, inv.faithful,
      inv.cancelled⟩
    obtain ⟨q, p⟩ := inv.pending w busy
    exact ⟨q, p.congr rfl rfl (Nat.le_succ _) p.waits⟩
  | queue k w worker arg delay =>
    simp only [Wqueue.step, ite_none_right_eq_some, isNone_iff_eq_none] at next
    obtain ⟨s'', lists', queued, inv'⟩ := inv.put next.1 requeues worker arg delay
    rw [queued, Option.some.injEq] at next
    exact ⟨lists', next.2 ▸ inv'⟩
  | cancel k w =>
    simp only [Wqueue.step, ite_none_right_eq_some, Option.some.injEq, isNone_iff_eq_none] at next
    obtain ⟨free, rfl⟩ := next
    unfold workQcancel
    split
    · next queued =>
      have busy : (s.work w).worker ≠ none := by grind
      have member := (inv.listed k w).2 ⟨busy, cancels busy⟩
      have still : ∀ t o a b, s.pc t ≠ .walking o a b := fun t o a b walking => by
        rw [(inv.walker t o a b walking).1] at free
        cases free
      have taken := inv.take member [s.latest w] [] rfl (by simp) s.lock still
      rw [append_nil] at taken
      exact ⟨_, taken⟩
    · exact ⟨lists, inv⟩
  | thread t => exact inv.goOn next

end

variable [DecidableEq ω] [DecidableEq κ] [DecidableEq τ]

theorem Works.inv (run : Works c (fun s a => CancelsAtHome s a ∧ RequeuesAtHome s a) s) :
    ∃ lists, Inv c s lists := by
  induction run with
  | start fresh => exact ⟨_, fresh.inv⟩
  | step before ok next ih =>
    obtain ⟨lists, inv⟩ := ih
    exact inv.step ok.1 ok.2 next

/-- In every run the calls of callbacks are lawful, and work can be queued. -/
theorem run_lawful (c : Threads κ τ) (s : Queues ω κ τ φ α)
    (run : Works c (fun s a => CancelsAtHome s a ∧ RequeuesAtHome s a) s) :
    Lawful s ∧ ∀ k w worker arg delay, s.lock = none →
      RequeuesAtHome s (.queue k w worker arg delay) →
      (step c s (.queue k w worker arg delay)).isSome := by
  obtain ⟨lists, inv⟩ := run.inv
  refine ⟨inv.lawful, fun k w worker arg delay free home => ?_⟩
  obtain ⟨s', -, queued, -⟩ := inv.put free home worker arg delay
  simp [step, free, queued]

/-! ## Two queues -/

inductive Qid where
  | hpwork
  | lpwork
  deriving DecidableEq

def twoThreads : Threads Qid Qid := ⟨32, id, fun _ => 0⟩

/-- One tick before the counter wraps around. -/
def idle : Queues (Fin 2) Qid Qid Unit ℕ :=
  { links := ⟨fun _ => none, fun _ => none, fun _ => none, fun _ => none⟩
    work := fun _ => ⟨none, 0, 0, 0⟩
    pc := fun _ => .outside
    lock := none
    now := 2 ^ 32 - 1
    queuings := []
    latest := fun _ => 0
    cancelled := []
    invocations := [] }

theorem idle_fresh : Fresh idle := ⟨rfl, fun _ => rfl, fun _ => rfl, rfl, rfl, rfl, rfl⟩

/-- Work with a delay of one tick is run after the counter has wrapped around. -/
theorem run_lawful_wrapped : ∃ s : Queues (Fin 2) Qid Qid Unit ℕ, invoked s = [0] ∧ s.now = 2 ^ 32 ∧ (Lawful s ∧
    ∀ k w worker arg delay, s.lock = none → RequeuesAtHome s (.queue k w worker arg delay) →
      (step twoThreads s (.queue k w worker arg delay)).isSome) := by
  have run : Works twoThreads (fun s a => CancelsAtHome s a ∧ RequeuesAtHome s a) idle :=
    .start idle_fresh
  have run := run.step (a := .queue .hpwork 0 () 7 1) ⟨trivial, by simp [RequeuesAtHome, idle]⟩ rfl
  have run := run.step (a := .tick) ⟨trivial, trivial⟩ rfl
  have run := run.step (a := .thread .hpwork) ⟨trivial, trivial⟩ rfl
  have run := run.step (a := .thread .hpwork) ⟨trivial, trivial⟩ rfl
  exact ⟨_, rfl, rfl, run_lawful _ _ run⟩

/-- Work that waits on one queue is put on the other, whose only entry is lost. -/
theorem requeue_loses_work :
    ∃ s : Queues (Fin 2) Qid Qid Unit ℕ, Works twoThreads CancelsAtHome s ∧ ¬ Lawful s := by
  have run : Works twoThreads CancelsAtHome idle := .start idle_fresh
  have run := run.step (a := .queue .hpwork 0 () 7 1) trivial rfl
  have run := run.step (a := .queue .lpwork 1 () 8 1) trivial rfl
  have run := run.step (a := .queue .lpwork 0 () 9 1) trivial rfl
  refine ⟨_, run, fun lawful => ?_⟩
  obtain ⟨k, l, path, member⟩ := (lawful.linked 1).2 (by decide)
  have only : l = [0] := path.unique (by cases k <;> exact ⟨rfl, rfl⟩)
  rw [only] at member
  exact absurd member (by decide)

end NuttxRtos.Wqueue
