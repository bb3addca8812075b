import Mathlib.Algebra.Order.Ring.Int
import Mathlib.Data.List.Count

/-!
# Signals to a task group

`group_signal` visits the members and chooses two of them: the first that has the signal in its
`sigwaitmask`, and the first other one that leaves it unblocked. If an action is registered, the
signal is dispatched to both. A thread whose wait timed out keeps its `sigwaitmask` until it runs.
-/

namespace NuttxRtos.Signal

open List

/-- A member of the group: whether the signal is in its `sigprocmask`, whether it is in
`TSTATE_WAIT_SIG`, and whether the signal is in its `sigwaitmask`. -/
structure Tcb where
  pid : ℕ
  blocked : Bool
  waitSig : Bool
  sigwait : Bool
  deriving DecidableEq

/-- The thread waits for the signal. -/
def Tcb.waits (t : Tcb) : Bool := t.waitSig && t.sigwait

/-- The thread waits for the signal or leaves it unblocked. -/
def Tcb.receptive (t : Tcb) : Bool := t.waits || !t.blocked

/-- What a dispatch does: a thread receives the signal, is unblocked or has the action queued, or the
signal becomes pending. -/
inductive Event where
  | received (t : Tcb)
  | woken (t : Tcb)
  | queued (t : Tcb)
  | pending
  deriving DecidableEq

section
variable (signo : ℕ) (action : Option Bool)

/-- `nxsig_tcbdispatch` in a flat build. The group has the `action`, which may have a handler. -/
def tcbdispatch (t : Tcb) : List Event :=
  if signo = 0 then []
  else .received t ::
    if t.blocked then if t.waits then [.woken t] else [.pending]
    else (if action = some true then [.queued t] else []) ++ if t.waitSig then [.woken t] else []

/-- `struct group_signal_s`. -/
structure Info where
  dtcb : Option Tcb := none
  utcb : Option Tcb := none
  atcb : Option Tcb := none
  ptcb : Option Tcb := none

/-- `group_signal_handler`: the threads that the signal is dispatched to, and whether the search
ends. -/
def groupSignalHandler (info : Info) (t : Tcb) : Info × List Tcb × Bool :=
  let wakes := t.sigwait && info.atcb.isNone
  let atcb := if wakes then some t else info.atcb
  let awake := { info with dtcb := info.dtcb.or t, atcb }
  let woken := if wakes then [t] else []
  if wakes && info.ptcb.isSome then (awake, woken, true)
  else if !t.blocked && info.ptcb.isNone && atcb != some t then
    let unblocked := { awake with utcb := info.utcb.or t }
    if action = none then (unblocked, woken, false)
    else ({ unblocked with ptcb := t }, woken ++ [t], atcb.isSome)
  else (awake, woken, false)

/-- `group_foreachchild`, with the members in the order of the visits. -/
def groupForeachchild : Info → List Tcb → Info × List Tcb
  | info, [] => (info, [])
  | info, t :: rest =>
    let (after, sent, stop) := groupSignalHandler action info t
    if stop then (after, sent)
    else
      let (final, more) := groupForeachchild after rest
      (final, sent ++ more)

/-- `group_signal`; the events of all dispatches. -/
def groupSignal (members : List Tcb) : List Event :=
  let (info, sent) := groupForeachchild action {} members
  let last := if info.atcb = none ∧ info.ptcb = none then info.utcb.or info.dtcb else none
  (sent ++ last.toList).flatMap (tcbdispatch signo action)

end

/-- The first member that has the signal in its `sigwaitmask`. -/
def waiter (members : List Tcb) : Option Tcb := members.find? (·.sigwait)

/-- The first member but `a` that leaves the signal unblocked. -/
def other (a : Option Tcb) (members : List Tcb) : Option Tcb :=
  members.find? fun t => !t.blocked && a ≠ some t

section
variable {t : Tcb} {a : Option Tcb} (rest : List Tcb)

theorem waiter_cons_of_not (asleep : (t.sigwait && a.isNone) = false) :
    a.or (waiter (t :: rest)) = a.or (waiter rest) := by
  cases a with
  | none => rw [waiter, find?_cons_of_neg (by simpa using asleep)]; rfl
  | some _ => rfl

theorem or_waiter_ne (asleep : (t.sigwait && a.isNone) = false) (away : a ≠ some t) :
    a.or (waiter rest) ≠ some t := by
  cases a with
  | none =>
    intro found
    simp [find?_some found] at asleep
  | some _ => exact away

end

/-- What a visit of the members adds to `info`: `a` and `p` are the two that are chosen. -/
structure Visited (members : List Tcb) (info final : Info) (sent : List Tcb) (a p : Option Tcb) :
    Prop where
  atcb : final.atcb = a
  ptcb : final.ptcb = info.ptcb.or p
  utcb : final.ptcb = none → final.utcb = info.utcb.or (other a members)
  dtcb : final.dtcb = info.dtcb.or members.head?
  sent : sent.Perm ((if info.atcb = none then a.toList else []) ++
    if info.ptcb = none then p.toList else [])

theorem groupForeachchild_visited (action : Option Bool) (members : List Tcb) (info : Info) :
    let (final, sent) := groupForeachchild action info members
    let a := info.atcb.or (waiter members)
    Visited members info final sent a (if action = none then none else other a members) := by
  induction members generalizing info with
  | nil => constructor <;> simp [waiter, other]
  | cons t rest ih =>
    obtain ⟨d, u, a, p⟩ := info
    cases wakes : t.sigwait && a.isNone with
    | true =>
      obtain ⟨waits, rfl⟩ : t.sigwait ∧ a = none := by simpa using wakes
      have waiting : waiter (t :: rest) = some t := find?_cons_of_pos waits
      have skip : other (some t) (t :: rest) = other (some t) rest :=
        find?_cons_of_neg (by simp)
      have step : groupSignalHandler action ⟨d, u, none, p⟩ t =
          (⟨d.or t, u, t, p⟩, [t], p.isSome) := by
        cases p <;> simp [groupSignalHandler, waits]
      have ⟨atcb, ptcb, utcb, dtcb, sent⟩ := ih ⟨d.or t, u, some t, p⟩
      simp only [groupForeachchild, step, waiting]
      cases p <;> constructor <;> simp_all
    | false =>
      rw [waiter_cons_of_not rest wakes]
      cases takes : !t.blocked && p.isNone && a != some t with
      | true =>
        obtain ⟨⟨free, rfl⟩, away⟩ : (t.blocked = false ∧ p = none) ∧ a ≠ some t := by
          simpa using takes
        have here : other (a.or (waiter rest)) (t :: rest) = some t :=
          find?_cons_of_pos (by
            rw [free, Bool.not_false, Bool.true_and]
            exact decide_eq_true (or_waiter_ne rest wakes away))
        have step : groupSignalHandler action ⟨d, u, a, none⟩ t =
            if action = none then (⟨d.or t, u.or t, a, none⟩, [], false)
            else (⟨d.or t, u.or t, a, some t⟩, [t], a.isSome) := by
          simp [groupSignalHandler, wakes, free, away]
        simp only [groupForeachchild, step, here]
        have ⟨atcb, ptcb, utcb, dtcb, sent⟩ :=
          ih ⟨d.or t, u.or t, a, if action = none then none else t⟩
        cases action with
        | none => constructor <;> simp_all
        | some act =>
          cases a with
          | none =>
            refine ⟨by simp_all, by simp_all, by simp_all, by simp_all, ?_⟩
            simpa using (List.Perm.cons t sent).trans (perm_append_singleton t _).symm
          | some w => constructor <;> simp
      | false =>
        have skip (empty : p = none) : other (a.or (waiter rest)) (t :: rest) =
            other (a.or (waiter rest)) rest := by
          exact find?_cons_of_neg (by cases blocked : t.blocked <;> simp_all)
        have step : groupSignalHandler action ⟨d, u, a, p⟩ t = (⟨d.or t, u, a, p⟩, [], false) := by
          simp only [groupSignalHandler, wakes, takes, Bool.false_and, Bool.false_eq_true, if_false]
        have ⟨atcb, ptcb, utcb, dtcb, sent⟩ := ih ⟨d.or t, u, a, p⟩
        simp only [groupForeachchild, step]
        cases p <;> constructor <;> simp_all

/-- The threads that the signal is dispatched to, in some order. -/
def targets (action : Option Bool) (members : List Tcb) : List Tcb :=
  let a := waiter members
  let o := other a members
  a.toList ++ (if a = none then o.or members.head? else if action = none then none else o).toList

section
variable {signo : ℕ} (action : Option Bool) {members : List Tcb}

theorem groupSignal_perm : (groupSignal signo action members).Perm
    ((targets action members).flatMap (tcbdispatch signo action)) := by
  have ⟨atcb, ptcb, utcb, dtcb, sent⟩ := groupForeachchild_visited action members {}
  refine List.Perm.flatMap_right _ ?_
  simp only [targets]
  cases a : waiter members <;> cases action <;> cases o : other (waiter members) members <;> simp_all

/-- A thread that waits for the signal is unblocked. -/
def Event.wakesWaiter : Event → Bool
  | .woken t => t.waits
  | _ => false

/-- The action is queued. -/
def Event.isQueued : Event → Bool
  | .queued _ => true
  | _ => false

/-- One waiting thread at most is unblocked, the action is queued once at most, the signal becomes
pending only if no member is receptive, and a receptive one receives it. -/
@[mk_iff receivedOnce_iff_and]
structure ReceivedOnce (members : List Tcb) (events : List Event) : Prop where
  woken : events.countP Event.wakesWaiter ≤ 1
  queued : events.countP Event.isQueued ≤ 1
  pending : .pending ∈ events → ∀ t ∈ members, ¬t.receptive
  received : (∃ t ∈ members, t.receptive) → ∃ t ∈ members, t.receptive ∧ .received t ∈ events

/-- An action is registered, and it or a wake-up goes to both members that are chosen. -/
def Doubled (action : Option Bool) (members : List Tcb) : Prop :=
  ∃ w p, waiter members = some w ∧ other (some w) members = some p ∧ action ≠ none ∧
    (w.waits ∧ p.waits ∨ action = some true ∧ w.blocked = false)

/-- The first member with the signal in its `sigwaitmask` does not wait any more and blocks the
signal, and another member would receive it. -/
def Missed (members : List Tcb) : Prop :=
  ∃ w, waiter members = some w ∧ ¬w.receptive ∧ ∃ t ∈ members, t.receptive

theorem receivedOnce_perm {events others : List Event} (same : events.Perm others) :
    ReceivedOnce members events ↔ ReceivedOnce members others := by
  simp only [receivedOnce_iff_and, same.countP_eq, same.mem_iff]

theorem tcbdispatch_spec (valid : signo ≠ 0) (t : Tcb) :
    let events := tcbdispatch signo action t
    events.countP Event.wakesWaiter = t.waits.toNat ∧
      events.countP Event.isQueued = (!t.blocked && action == some true).toNat ∧
      (.pending ∈ events ↔ ¬t.receptive) ∧
      ∀ s, .received s ∈ events ↔ s = t := by
  obtain ⟨pid, blocked, waitSig, sigwait⟩ := t
  cases blocked <;> cases waitSig <;> cases sigwait <;> rcases action with _ | _ | _ <;>
    simp [tcbdispatch, valid, Event.wakesWaiter, Event.isQueued, Tcb.receptive,
      Tcb.waits, countP_cons]

theorem receivedOnce_single (valid : signo ≠ 0) {t : Tcb} (member : t ∈ members) :
    ReceivedOnce members (tcbdispatch signo action t) ↔
      ¬(¬t.receptive ∧ ∃ s ∈ members, s.receptive) := by
  have ⟨woken, queued, pending, received⟩ := tcbdispatch_spec action valid t
  rw [not_and, not_exists]
  constructor
  · rintro once deaf s ⟨inside, receptive⟩
    exact once.pending (pending.2 deaf) s inside receptive
  intro chosen
  refine ⟨woken ▸ Bool.toNat_le _, queued ▸ Bool.toNat_le _, ?_, ?_⟩
  · intro kept s inside receptive
    exact chosen (pending.1 kept) s ⟨inside, receptive⟩
  · rintro ⟨s, inside, receptive⟩
    by_contra nobody
    refine chosen (fun mine => ?_) s ⟨inside, receptive⟩
    exact nobody ⟨t, member, mine, (received t).2 rfl⟩

theorem receivedOnce_pair (valid : signo ≠ 0) {w p : Tcb} (member : p ∈ members)
    (free : p.blocked = false) :
    ReceivedOnce members (tcbdispatch signo action w ++ tcbdispatch signo action p) ↔
      ¬(w.waits ∧ p.waits ∨ action = some true ∧ w.blocked = false) ∧ w.receptive := by
  have ⟨woken, queued, pending, _⟩ := tcbdispatch_spec action valid w
  have ⟨woken', queued', pending', received⟩ := tcbdispatch_spec action valid p
  have receptive : p.receptive := by simp [Tcb.receptive, free]
  have wakes : (tcbdispatch signo action w ++ tcbdispatch signo action p).countP
      Event.wakesWaiter ≤ 1 ↔ ¬(w.waits ∧ p.waits) := by
    rw [countP_append, woken, woken']
    cases w.waits <;> cases p.waits <;> decide
  have queues : (tcbdispatch signo action w ++ tcbdispatch signo action p).countP
      Event.isQueued ≤ 1 ↔ ¬(action = some true ∧ w.blocked = false) := by
    rw [countP_append, queued, queued', free]
    cases w.blocked <;> rcases action with _ | _ | _ <;> simp
  rw [not_or]
  constructor
  · intro once
    refine ⟨⟨wakes.1 once.woken, queues.1 once.queued⟩, ?_⟩
    by_contra deaf
    exact once.pending (mem_append_left _ (pending.2 deaf)) p member receptive
  rintro ⟨⟨one, single⟩, hears⟩
  refine ⟨wakes.2 one, queues.2 single, ?_, fun _ => ⟨p, member, receptive, by simp [received]⟩⟩
  simp [pending, pending', hears, receptive]

end

end NuttxRtos.Signal
