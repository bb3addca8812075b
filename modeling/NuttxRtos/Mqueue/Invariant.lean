import NuttxRtos.Mqueue.Model

/-! What holds of the messages of a queue, and of the tasks that wait for it. -/

namespace NuttxRtos.Mqueue

open WaitCount List

section

variable {τ κ : Type}

/-- The order of the list: higher priorities first, and older messages first among equals. -/
def Before (a b : Message) : Prop :=
  b.body.prio < a.body.prio ∨ a.body.prio = b.body.prio ∧ a.seq < b.seq

def fromTasks (q : Queue τ) : ℕ := q.msglist.countP fun m => !m.irq

/-- The list is in order and counted by `nmsgs`, and every message that is on the list or was taken
off it is one of those that were sent, and is there once. -/
structure Messages (q : Queue τ) : Prop where
  count : q.nmsgs = q.msglist.length
  small : q.msglist.length < 2 ^ 15
  order : q.msglist.Pairwise Before
  once : ((q.msglist ++ q.taken.map Prod.snd).map Message.seq).Nodup
  content : ∀ m ∈ q.msglist ++ q.taken.map Prod.snd, q.sent[m.seq]? = some m.body

/-- The messages of all queues, and the tasks that carry one or are about to queue one. -/
structure Store (s : State τ κ) : Prop where
  messages : ∀ k, Messages (s.queue k)
  got : ∀ t k m, s.pc t = .got k m → (t, m) ∈ (s.queue k).taken
  bound : ∀ k, fromTasks (s.queue k) ≤ (s.queue k).maxmsgs
  room : ∀ t k body, s.pc t = .room k body → fromTasks (s.queue k) < (s.queue k).maxmsgs
  alone : ∀ t u k body body', s.pc t = .room k body → s.pc u = .room k body' → t = u

/-- The wait lists: the queues count their waiting tasks, and a task is on a list only while it
waits in the call that put it there. -/
structure Waits [DecidableEq κ] (s : State τ κ) : Prop where
  empty : Counted s.notempty s.msgwaitq fun k => (s.queue k).nwaitnotempty
  full : Counted s.notfull s.msgwaitq fun k => (s.queue k).nwaitnotfull
  empty_at : ∀ t ∈ s.notempty, ∃ k, s.pc t = .receiveWait k ∧ s.msgwaitq t = some k
  full_at : ∀ t ∈ s.notfull, ∃ k body, s.pc t = .sendWait k body ∧ s.msgwaitq t = some k

variable {s s' : State τ κ} {t : τ} {k : κ} {q : Queue τ} {body : Body} {pc : Pc κ} {pos : ℕ}

/-! ## Messages -/

theorem int16_eq {x : ℤ} (low : -2 ^ 15 ≤ x) (high : x < 2 ^ 15) : int16 x = x := by
  unfold int16
  rw [Int.bmod_def]
  omega

theorem Messages.seq_lt (messages : Messages q) {m : Message}
    (member : m ∈ q.msglist ++ q.taken.map Prod.snd) : m.seq < q.sent.length := by
  have content := messages.content m member
  exact (List.getElem?_eq_some_iff.1 content).1

theorem Messages.desc (messages : Messages q) :
    PriorityList.Desc (fun m => m.body.prio) q.msglist := by
  refine messages.order.imp fun {a b} before => ?_
  cases before with
  | inl lower => exact lower.le
  | inr equal => exact equal.1.ge

theorem Messages.insert (messages : Messages q) (irq : Bool)
    (room : q.msglist.length < 2 ^ 15 - 1) :
    Messages { q with
      msglist := PriorityList.insert (fun m => m.body.prio) ⟨q.sent.length, irq, body⟩ q.msglist
      nmsgs := int16 (q.nmsgs + 1)
      sent := q.sent ++ [body] } where
  count := by
    have length : (PriorityList.insert (fun m => m.body.prio) ⟨q.sent.length, irq, body⟩
        q.msglist).length = q.msglist.length + 1 := PriorityList.insert_perm.length_eq
    rw [messages.count, int16_eq (by omega) (by omega), length]
    rfl
  small := by
    have length : (PriorityList.insert (fun m => m.body.prio) ⟨q.sent.length, irq, body⟩
        q.msglist).length = q.msglist.length + 1 := PriorityList.insert_perm.length_eq
    rw [length]
    omega
  order := by
    refine PriorityList.insert_pairwise messages.order messages.desc ?_ ?_
    · intro b member higher
      have older := messages.seq_lt (mem_append_left _ member)
      cases lt_or_eq_of_le higher with
      | inl above => exact .inl above
      | inr equal => exact .inr ⟨equal.symm, older⟩
    · exact fun b _ lower => .inl lower
  once := by
    have perm : (PriorityList.insert (fun m => m.body.prio) ⟨q.sent.length, irq, body⟩ q.msglist ++
        q.taken.map Prod.snd).Perm
        (⟨q.sent.length, irq, body⟩ :: (q.msglist ++ q.taken.map Prod.snd)) :=
      PriorityList.insert_perm.append_right _
    refine (perm.map Message.seq).nodup_iff.2 (nodup_cons.2 ⟨?_, messages.once⟩)
    intro member
    obtain ⟨m, in_m, same⟩ := mem_map.1 member
    exact absurd (messages.seq_lt in_m) (by rw [same]; exact lt_irrefl _)
  content := by
    intro m member
    have split : m = ⟨q.sent.length, irq, body⟩ ∨ m ∈ q.msglist ++ q.taken.map Prod.snd := by
      simpa [or_assoc] using member
    cases split with
    | inl new => simp [new]
    | inr old =>
      rw [getElem?_append_left (messages.seq_lt old)]
      exact messages.content m old

theorem Messages.take (messages : Messages q) {m : Message} {rest : List Message}
    (list : q.msglist = m :: rest) :
    Messages { q with
      msglist := rest
      nmsgs := int16 (q.nmsgs - 1)
      taken := (t, m) :: q.taken } where
  count := by
    have small := messages.small
    rw [list, length_cons] at small
    rw [messages.count, list, length_cons, int16_eq (by omega) (by omega)]
    simp
  small := by
    have small := messages.small
    rw [list, length_cons] at small
    exact Nat.lt_of_succ_lt small
  order := by
    have order := messages.order
    rw [list] at order
    exact (pairwise_cons.1 order).2
  once := by
    have once := messages.once
    rw [list] at once
    have perm : (rest ++ m :: q.taken.map Prod.snd).Perm (m :: (rest ++ q.taken.map Prod.snd)) :=
      perm_middle
    exact (perm.map Message.seq).nodup_iff.2 once
  content := by
    intro m' member
    refine messages.content m' ?_
    rw [list]
    simpa [or_left_comm] using member

namespace Store

variable [DecidableEq τ]

/-- A task goes on. If it carries a message from now on, that was taken off the list; if it is about
to queue one, there is room for it and no other task is about to. -/
theorem setPc (store : Store s) (got : ∀ k m, pc = .got k m → (t, m) ∈ (s.queue k).taken)
    (room : ∀ k body, pc = .room k body → fromTasks (s.queue k) < (s.queue k).maxmsgs ∧
      ∀ u body', s.pc u ≠ .room k body') : Store (s.setPc t pc) where
  messages := store.messages
  got := by
    intro u k m at_got
    by_cases same : u = t
    · subst same
      exact got k m (by simpa [State.setPc] using at_got)
    · exact store.got u k m (by simpa [State.setPc, same] using at_got)
  bound := store.bound
  room := by
    intro u k body at_room
    by_cases same : u = t
    · exact (room k body (by simpa [State.setPc, same] using at_room)).1
    · exact store.room u k body (by simpa [State.setPc, same] using at_room)
  alone := by
    intro u v k body body' at_u at_v
    by_cases same : u = t
    · by_cases same' : v = t
      · rw [same, same']
      have nobody := (room k body (by simpa [State.setPc, same] using at_u)).2
      exact absurd (by simpa [State.setPc, same'] using at_v) (nobody v body')
    by_cases same' : v = t
    · have nobody := (room k body' (by simpa [State.setPc, same'] using at_v)).2
      exact absurd (by simpa [State.setPc, same] using at_u) (nobody u body)
    · exact store.alone u v k body body' (by simpa [State.setPc, same] using at_u)
        (by simpa [State.setPc, same'] using at_v)

variable [DecidableEq κ]

omit [DecidableEq τ] in
/-- A queue changes that still has the messages that tasks carry, and room for a task that found
some. -/
theorem setQueue (store : Store s) (messages : Messages q) (taken : (s.queue k).taken ⊆ q.taken)
    (bound : fromTasks q ≤ q.maxmsgs)
    (room : ∀ t body, s.pc t = .room k body → fromTasks q < q.maxmsgs) :
      Store (s.setQueue k q) := by
  have looked : ∀ j, j = k ∧ (s.setQueue k q).queue j = q ∨
      (s.setQueue k q).queue j = s.queue j := by
    intro j
    by_cases same : j = k
    · exact .inl ⟨same, by simp [State.setQueue, same]⟩
    · exact .inr (by simp [State.setQueue, same])
  refine ⟨fun j => ?_, fun t j m at_got => ?_, fun j => ?_, fun t j body at_room => ?_, store.alone⟩
  all_goals rcases looked j with ⟨rfl, now⟩ | now <;> rw [now]
  · exact messages
  · exact store.messages j
  · exact taken (store.got t j m at_got)
  · exact store.got t j m at_got
  · exact bound
  · exact store.bound j
  · exact room t body at_room
  · exact store.room t j body at_room

omit [DecidableEq τ] in
/-- A message is inserted by an interrupt handler, or by the task that found room for it. -/
theorem insertMsg (store : Store s) (irq : Bool) (small : (s.queue k).msglist.length < 2 ^ 15 - 1)
    (room : irq = false → fromTasks (s.queue k) < (s.queue k).maxmsgs)
    (nobody : irq = false → ∀ u body', s.pc u ≠ .room k body') :
    Store (insertMsg s k body irq) := by
  have tasks : fromTasks { s.queue k with
      msglist := PriorityList.insert (fun m => m.body.prio) ⟨(s.queue k).sent.length, irq, body⟩
        (s.queue k).msglist } = fromTasks (s.queue k) + if irq then 0 else 1 := by
    simp only [fromTasks, PriorityList.insert_perm.countP_eq, countP_cons]
    cases irq <;> rfl
  refine store.setQueue ((store.messages k).insert irq small) (List.Subset.refl _)
    (tasks.le.trans ?_) fun t body' at_room => tasks.trans_lt ?_
  · cases irq with
    | true => exact store.bound k
    | false => exact room rfl
  · cases irq with
    | true => exact store.room t k body' at_room
    | false => exact absurd at_room (nobody rfl t body')

theorem take (store : Store s) {m : Message} {rest : List Message}
    (list : (s.queue k).msglist = m :: rest) :
    Store ((s.setQueue k { s.queue k with
      msglist := rest
      nmsgs := int16 ((s.queue k).nmsgs - 1)
      taken := (t, m) :: (s.queue k).taken }).setPc t (.got k m)) := by
  have tasks : rest.countP (fun m => !m.irq) ≤ fromTasks (s.queue k) := by
    rw [fromTasks, list, countP_cons]
    exact Nat.le_add_right _ _
  have taken := store.setQueue ((store.messages k).take (t := t) list) (subset_cons_self ..)
    (tasks.trans (store.bound k)) fun u body at_room => tasks.trans_lt (store.room u k body at_room)
  refine taken.setPc (fun j m' same => ?_) nofun
  cases same
  simp [State.setQueue]

end Store

/-! ## Waiting tasks -/

section Waiting

variable [DecidableEq κ]

theorem update_apply_eq {α : Type*} (f : Queue τ → α) (queue : κ → Queue τ) (k : κ) (q : Queue τ) :
    (fun j => f (Function.update queue k q j)) = Function.update (fun j => f (queue j)) k (f q) :=
  funext (Function.apply_update (fun _ => f) queue k q)

namespace Waits

theorem notMem_of_pc (waits : Waits s) {pc : Pc κ} (at_pc : s.pc t = pc)
    (no_receive : ∀ k, pc ≠ .receiveWait k) (no_send : ∀ k body, pc ≠ .sendWait k body) :
    t ∉ s.notempty ∧ t ∉ s.notfull := by
  refine ⟨fun member => ?_, fun member => ?_⟩
  · obtain ⟨k, at_t, _⟩ := waits.empty_at t member
    exact no_receive k (at_pc.symm.trans at_t)
  · obtain ⟨k, body, at_t, _⟩ := waits.full_at t member
    exact no_send k body (at_pc.symm.trans at_t)

theorem disjoint (waits : Waits s) (member : t ∈ s.notempty) : t ∉ s.notfull := by
  intro member'
  obtain ⟨k, at_t, _⟩ := waits.empty_at t member
  obtain ⟨k', body, at_t', _⟩ := waits.full_at t member'
  simp [at_t] at at_t'

theorem setQueue (waits : Waits s)
    (counts : q.nwaitnotempty = (s.queue k).nwaitnotempty ∧
      q.nwaitnotfull = (s.queue k).nwaitnotfull) : Waits (s.setQueue k q) where
  empty := by
    simp only [State.setQueue, update_apply_eq, counts.1, Function.update_eq_self]
    exact waits.empty
  full := by
    simp only [State.setQueue, update_apply_eq, counts.2, Function.update_eq_self]
    exact waits.full
  empty_at := waits.empty_at
  full_at := waits.full_at

theorem mem_enlist {l : List τ} {u : τ} : u ∈ enlist l t pos ↔ u = t ∨ u ∈ l := by
  have perm : (enlist l t pos).Perm (t :: l) := by
    refine perm_middle.trans (.cons t ?_)
    rw [take_append_drop]
  rw [perm.mem_iff, mem_cons]

theorem forall_other {l : List τ} {P Q : τ → Prop} (absent : t ∉ l) (old : ∀ u ∈ l, P u)
    (same : ∀ u, u ≠ t → (P u → Q u)) : ∀ u ∈ l, Q u :=
  fun u member => same u (fun here => absent (here ▸ member)) (old u member)

variable [DecidableEq τ]

section

variable (waits : Waits s) (absent : t ∉ s.notempty ∧ t ∉ s.notfull)

include waits absent

theorem setPc :
    Waits (s.setPc t pc) where
  empty := waits.empty
  full := waits.full
  empty_at := forall_other absent.1 waits.empty_at fun u other => by
    simp [State.setPc, other]
  full_at := forall_other absent.2 waits.full_at fun u other => by
    simp [State.setPc, other]

theorem waitNotEmpty :
    Waits (waitNotEmpty s t k pos) where
  empty := by
    simp only [Mqueue.waitNotEmpty, State.setPc, State.setQueue]
    rw [update_apply_eq]
    exact waits.empty.add absent.1 pos
  full := by
    simp only [Mqueue.waitNotEmpty, State.setPc, State.setQueue]
    rw [update_apply_eq, Function.update_eq_self_iff.2 rfl]
    exact waits.full.update absent.2 _
  empty_at := by
    intro u member
    by_cases same : u = t
    · exact ⟨k, by simp [Mqueue.waitNotEmpty, State.setPc, State.setQueue, same]⟩
    cases mem_enlist.1 member with
    | inl new => exact absurd new same
    | inr old =>
      simpa [Mqueue.waitNotEmpty, State.setPc, State.setQueue, same] using waits.empty_at u old
  full_at := forall_other absent.2 waits.full_at fun u other => by
    simp [Mqueue.waitNotEmpty, State.setPc, State.setQueue, other]

theorem waitNotFull :
    Waits (waitNotFull s t k body pos) where
  empty := by
    simp only [Mqueue.waitNotFull, State.setPc, State.setQueue]
    rw [update_apply_eq, Function.update_eq_self_iff.2 rfl]
    exact waits.empty.update absent.1 _
  full := by
    simp only [Mqueue.waitNotFull, State.setPc, State.setQueue]
    rw [update_apply_eq]
    exact waits.full.add absent.2 pos
  empty_at := forall_other absent.1 waits.empty_at fun u other => by
    simp [Mqueue.waitNotFull, State.setPc, State.setQueue, other]
  full_at := by
    intro u member
    by_cases same : u = t
    · exact ⟨k, body, by simp [Mqueue.waitNotFull, State.setPc, State.setQueue, same]⟩
    cases mem_enlist.1 member with
    | inl new => exact absurd new same
    | inr old =>
      simpa [Mqueue.waitNotFull, State.setPc, State.setQueue, same] using waits.full_at u old

end

theorem unwaitEmpty (waits : Waits s) (member : t ∈ s.notempty) (on : s.msgwaitq t = some k)
    (errcode : τ → Option Err) :
    Waits ({ s with
      notempty := s.notempty.erase t
      msgwaitq := Function.update s.msgwaitq t none
      errcode := errcode }.setQueue k
        { s.queue k with nwaitnotempty := (s.queue k).nwaitnotempty - 1 }) where
  empty := by
    simp only [State.setQueue]
    rw [update_apply_eq]
    exact waits.empty.remove member on
  full := by
    simp only [State.setQueue]
    rw [update_apply_eq, Function.update_eq_self_iff.2 rfl]
    exact waits.full.update (waits.disjoint member) _
  empty_at := by
    intro u in_u
    obtain ⟨other, old⟩ := waits.empty.nodup.mem_erase_iff.1 in_u
    simpa [State.setQueue, other] using waits.empty_at u old
  full_at := forall_other (waits.disjoint member) waits.full_at fun u other => by
    simp [State.setQueue, other]

theorem unwaitFull (waits : Waits s) (member : t ∈ s.notfull) (on : s.msgwaitq t = some k)
    (errcode : τ → Option Err) :
    Waits ({ s with
      notfull := s.notfull.erase t
      msgwaitq := Function.update s.msgwaitq t none
      errcode := errcode }.setQueue k
        { s.queue k with nwaitnotfull := (s.queue k).nwaitnotfull - 1 }) where
  empty := by
    simp only [State.setQueue]
    rw [update_apply_eq, Function.update_eq_self_iff.2 rfl]
    exact waits.empty.update (fun member' => waits.disjoint member' member) _
  full := by
    simp only [State.setQueue]
    rw [update_apply_eq]
    exact waits.full.remove member on
  empty_at := forall_other (fun there => waits.disjoint there member) waits.empty_at
    fun u other => by simp [State.setQueue, other]
  full_at := by
    intro u in_u
    obtain ⟨other, old⟩ := waits.full.nodup.mem_erase_iff.1 in_u
    simpa [State.setQueue, other] using waits.full_at u old

end Waits

end Waiting

end

end NuttxRtos.Mqueue
