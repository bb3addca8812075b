import NuttxRtos.Mqueue.Invariant

/-! Message queues over whole runs, with any interleaving of tasks and interrupt handlers. -/

namespace NuttxRtos.Mqueue

open WaitCount List

section

variable {τ κ : Type} [DecidableEq τ] [DecidableEq κ]

variable {s s' : State τ κ} {t : τ} {k : κ} {body : Body} {pos : ℕ} {nonblock : Bool}

/-- No task looks for room while another has found room and not yet queued its message; a receiver
that saw a waiting sender still finds one; no task is deleted while it waits for a queue; and
`nmsgs` does not overflow. -/
def Regular (s : State τ κ) : Op τ κ → Prop
  | .send _ k _ _ _ =>
    (s.queue k).nmsgs < (s.queue k).maxmsgs → ∀ u body, s.pc u ≠ .room k body
  | .resume t _ =>
    ∀ k body, s.pc t = .sendWait k body → (s.queue k).nmsgs < (s.queue k).maxmsgs →
      ∀ u body', s.pc u ≠ .room k body'
  | .insert t => ∀ k body, s.pc t = .room k body → (s.queue k).msglist.length < 2 ^ 15 - 1
  | .irqSend k _ => (s.queue k).msglist.length < 2 ^ 15 - 1
  | .wakeSender t => ∀ k, s.pc t = .waiter k → 0 < (s.queue k).nwaitnotfull
  | .terminate t => t ∉ s.notempty ∧ t ∉ s.notfull
  | _ => True

structure Inv (s : State τ κ) : Prop where
  store : Store s
  waits : Waits s

omit [DecidableEq τ] in
theorem initial_inv (maxmsgs maxmsgsize : κ → ℕ) :
    Inv (initial maxmsgs maxmsgsize : State τ κ) where
  store := {
    messages := fun k => ⟨rfl, by simp [initial], .nil, by simp [initial], by simp [initial]⟩
    got := by simp [initial]
    bound := by simp [initial, fromTasks]
    room := by simp [initial]
    alone := by simp [initial] }
  waits := {
    empty := ⟨nodup_nil, fun _ => rfl⟩
    full := ⟨nodup_nil, fun _ => rfl⟩
    empty_at := by simp [initial]
    full_at := by simp [initial] }

omit [DecidableEq τ] in
theorem store_unwait {s' : State τ κ} (store : Store s) (full empty : ℤ)
    (queue : s'.queue = Function.update s.queue k
      { s.queue k with nwaitnotfull := full, nwaitnotempty := empty }) (pc : s'.pc = s.pc) :
    Store s' := by
  have messages := store.messages k
  have counted := store.setQueue (k := k)
    (q := { s.queue k with nwaitnotfull := full, nwaitnotempty := empty }) { messages with }
    (List.Subset.refl _) (store.bound k) fun t body => store.room t k body
  obtain ⟨queue', _, _, _, _, pc'⟩ := s'
  subst queue pc
  exact { counted with }

theorem wakeReceiver_inv (inv : Inv s) : ∃ s', wakeReceiver s k = some s' ∧ Inv s' := by
  unfold wakeReceiver
  split
  · rename_i positive
    obtain ⟨btcb, found, member, on⟩ := inv.waits.empty.find_isSome positive
    rw [found]
    exact ⟨_, rfl, store_unwait inv.store _ _ rfl rfl,
      inv.waits.unwaitEmpty member on _⟩
  · exact ⟨s, rfl, inv⟩

theorem wakeSender_inv (inv : Inv s) (waiting : 0 < (s.queue k).nwaitnotfull) :
    ∃ s', wakeSender s k = some s' ∧ Inv s' := by
  obtain ⟨btcb, found, member, on⟩ := inv.waits.full.find_isSome waiting
  rw [wakeSender, found]
  exact ⟨_, rfl, store_unwait inv.store _ _ rfl rfl,
    inv.waits.unwaitFull member on _⟩

theorem waitIrq_inv (inv : Inv s) (t : τ) (err : Err) : ∃ s', waitIrq s t err =
    some s' ∧ Inv s' := by
  unfold waitIrq
  split
  · rename_i member
    obtain ⟨k, _, on⟩ := inv.waits.empty_at t member
    rw [on]
    exact ⟨_, rfl, store_unwait inv.store _ _ rfl rfl,
      inv.waits.unwaitEmpty member on _⟩
  split
  · rename_i member
    obtain ⟨k, _, _, on⟩ := inv.waits.full_at t member
    rw [on]
    exact ⟨_, rfl, store_unwait inv.store _ _ rfl rfl,
      inv.waits.unwaitFull member on _⟩
  · exact ⟨s, rfl, inv⟩

section

variable (inv : Inv s) (absent : t ∉ s.notempty ∧ t ∉ s.notfull)

include inv absent

/-- A task that is on no list goes on, without a message and without room for one. -/
theorem Inv.setPc {pc : Pc κ} (no_room : ∀ k body, pc ≠ .room k body)
    (no_got : ∀ k m, pc ≠ .got k m) : Inv (s.setPc t pc) :=
  ⟨inv.store.setPc (fun k m at_got => absurd at_got (no_got k m)) fun k body at_room =>
    absurd at_room (no_room k body), inv.waits.setPc absent⟩

theorem checkRoom_inv
    (regular : (s.queue k).nmsgs < (s.queue k).maxmsgs → ∀ u body, s.pc u ≠ .room k body) :
    Inv (checkRoom s t k body nonblock pos) := by
  unfold checkRoom
  split
  · split
    · exact inv.setPc absent (by simp) (by simp)
    refine ⟨?_, inv.waits.waitNotFull absent⟩
    have store : Store (s.setPc t (.sendWait k body)) := inv.store.setPc nofun nofun
    exact store_unwait store _ _ rfl rfl
  · rename_i free
    refine ⟨inv.store.setPc nofun fun j body' same => ?_, inv.waits.setPc absent⟩
    cases same
    have total : fromTasks (s.queue k) ≤ (s.queue k).msglist.length := countP_le_length
    have count := (inv.store.messages k).count
    exact ⟨by omega, regular (not_le.1 free)⟩

theorem waitReceive_inv : Inv (waitReceive s t k nonblock pos) := by
  unfold waitReceive
  split
  · split
    · exact inv.setPc absent (by simp) (by simp)
    refine ⟨?_, inv.waits.waitNotEmpty absent⟩
    have store : Store (s.setPc t (.receiveWait k)) := inv.store.setPc nofun nofun
    exact store_unwait store _ _ rfl rfl
  rename_i m rest list
  exact ⟨inv.store.take list, .setPc (inv.waits.setQueue ⟨rfl, rfl⟩) absent⟩

end

omit [DecidableEq τ] in
theorem insertMsg_inv (inv : Inv s) (irq : Bool) (small : (s.queue k).msglist.length < 2 ^ 15 - 1)
    (room : irq = false → fromTasks (s.queue k) < (s.queue k).maxmsgs)
    (nobody : irq = false → ∀ u body', s.pc u ≠ .room k body') : Inv (insertMsg s k body irq) := by
  exact ⟨inv.store.insertMsg irq small room nobody, inv.waits.setQueue ⟨rfl, rfl⟩⟩

theorem step_inv (inv : Inv s) (op : Op τ κ) (valid : Valid s op) (regular : Regular s op) :
    ∃ s', step s op = some s' ∧ Inv s' := by
  cases op with
  | send t k body nonblock pos =>
    have absent := inv.waits.notMem_of_pc valid (by simp) (by simp)
    refine ⟨_, rfl, ?_⟩
    split
    · exact checkRoom_inv inv absent regular
    · exact inv
  | allocFails t =>
    obtain ⟨k, body, at_room⟩ := valid
    have absent := inv.waits.notMem_of_pc at_room (by simp) (by simp)
    exact ⟨_, rfl, inv.setPc absent (by simp) (by simp)⟩
  | insert t =>
    obtain ⟨k, body, at_room⟩ := valid
    have absent := inv.waits.notMem_of_pc at_room (by simp) (by simp)
    have moved : Inv (s.setPc t (.queued k)) := inv.setPc absent (by simp) (by simp)
    refine ⟨_, by rw [step, at_room], ?_⟩
    refine insertMsg_inv moved false (regular k body at_room)
      (fun _ => inv.store.room t k body at_room) fun _ u body' at_u => ?_
    by_cases same : u = t
    · subst same
      simp [State.setPc] at at_u
    · exact same
        (inv.store.alone u t k body' body (by simpa [State.setPc, same] using at_u) at_room)
  | wakeReceiver t =>
    obtain ⟨k, at_queued⟩ := valid
    have absent := inv.waits.notMem_of_pc at_queued (by simp) (by simp)
    rw [step, at_queued]
    exact wakeReceiver_inv (inv.setPc absent (by simp) (by simp))
  | receive t k nonblock pos =>
    have absent := inv.waits.notMem_of_pc valid (by simp) (by simp)
    exact ⟨_, rfl, waitReceive_inv inv absent⟩
  | deliver t =>
    obtain ⟨k, m, at_got⟩ := valid
    have absent := inv.waits.notMem_of_pc at_got (by simp) (by simp)
    refine ⟨_, by rw [step, at_got], inv.setPc absent ?_ ?_⟩
    · intro k' body
      split <;> simp
    · intro k' m'
      split <;> simp
  | wakeSender t =>
    obtain ⟨k, at_waiter⟩ := valid
    have absent := inv.waits.notMem_of_pc at_waiter (by simp) (by simp)
    rw [step, at_waiter]
    exact wakeSender_inv (inv.setPc absent (by simp) (by simp)) (regular k at_waiter)
  | resume t pos =>
    obtain ⟨at_wait, absent⟩ := valid
    cases at_wait with
    | inl sending =>
      obtain ⟨k, body, at_wait⟩ := sending
      cases err : s.errcode t with
      | some e =>
        exact ⟨_, by rw [step, at_wait, err], inv.setPc absent (by simp) (by simp)⟩
      | none =>
        exact ⟨_, by rw [step, at_wait, err], checkRoom_inv inv absent (regular k body at_wait)⟩
    | inr receiving =>
      obtain ⟨k, at_wait⟩ := receiving
      cases err : s.errcode t with
      | some e =>
        exact ⟨_, by rw [step, at_wait, err], inv.setPc absent (by simp) (by simp)⟩
      | none => exact ⟨_, by rw [step, at_wait, err], waitReceive_inv inv absent⟩
  | irqSend k body =>
    rw [step]
    split
    · exact wakeReceiver_inv (insertMsg_inv inv true regular (by simp) (by simp))
    · exact ⟨s, rfl, inv⟩
  | interrupt t err => exact waitIrq_inv inv t err
  | terminate t =>
    refine ⟨_, rfl, ?_⟩
    have same : terminate s t = s.setPc t .deleted := by
      rw [terminate, erase_of_not_mem regular.1, erase_of_not_mem regular.2]
    rw [same]
    exact inv.setPc regular (by simp) (by simp)

theorem Run.inv (run : Run Regular s) : Inv s := by
  induction run with
  | init maxmsgs maxmsgsize => exact initial_inv maxmsgs maxmsgsize
  | step _ op valid regular returns ih =>
    obtain ⟨s', returned, inv⟩ := step_inv ih op valid regular
    rw [returns, Option.some.injEq] at returned
    exact returned ▸ inv

/-- In regular runs: `nmsgs` is the length of the list, with at most `maxmsgs` messages of tasks;
the first message is the oldest of the highest priority; each is taken off the list once, with the
priority and the bytes that were sent; the wait counters are exact; and every regular step returns.
-/
theorem run_messages (run : Run Regular s) :
    (∀ k, (s.queue k).nmsgs = (s.queue k).msglist.length ∧
      ((s.queue k).msglist.countP fun m => !m.irq) ≤ (s.queue k).maxmsgs) ∧
    (∀ k m rest, (s.queue k).msglist = m :: rest → ∀ m' ∈ rest, Before m m') ∧
    (∀ k, (((s.queue k).msglist ++ (s.queue k).taken.map Prod.snd).map Message.seq).Nodup ∧
      ∀ m ∈ (s.queue k).msglist ++ (s.queue k).taken.map Prod.snd,
        (s.queue k).sent[m.seq]? = some m.body) ∧
    (∀ t k m, s.pc t = .got k m → (t, m) ∈ (s.queue k).taken) ∧
    (∀ k, (s.queue k).nwaitnotempty = s.notempty.countP (fun t => s.msgwaitq t = some k) ∧
      (s.queue k).nwaitnotfull = s.notfull.countP fun t => s.msgwaitq t = some k) ∧
    ∀ op, Valid s op → Regular s op → ∃ s', step s op = some s' := by
  have inv := run.inv
  refine ⟨?_, ?_, ?_, inv.store.got, ?_, ?_⟩
  · exact fun k => ⟨(inv.store.messages k).count, inv.store.bound k⟩
  · intro k m rest list
    have order := (inv.store.messages k).order
    rw [list] at order
    exact (pairwise_cons.1 order).1
  · exact fun k => ⟨(inv.store.messages k).once, (inv.store.messages k).content⟩
  · exact fun k => ⟨inv.waits.empty.count_eq k, inv.waits.full.count_eq k⟩
  intro op valid regular
  obtain ⟨s', returns, _⟩ := step_inv inv op valid regular
  exact ⟨s', returns⟩

end

def oneMessage : State (Fin 3) Unit := initial (fun _ => 1) fun _ => 8

/-- A receiver takes the message of the highest priority, while a sender waits for room. -/
theorem run_messages_waiting :
    ∃ s : State (Fin 3) Unit, Run Regular s ∧ s.pc 2 = .got () ⟨1, true, ⟨5, [2]⟩⟩ ∧
      (2, ⟨1, true, ⟨5, [2]⟩⟩) ∈ (s.queue ()).taken ∧ (s.queue ()).nwaitnotfull = 1 := by
  have first : Run Regular oneMessage := .init _ _
  have room := first.step (.send 0 () ⟨3, [1]⟩ false 0) rfl
    (fun _ _ _ same => nomatch same) rfl
  have queued := room.step (.insert 0) ⟨(), ⟨3, [1]⟩, rfl⟩
      (fun _ _ _ => show 0 < 2 ^ 15 - 1 by decide) rfl
  have done := queued.step (.wakeReceiver 0) ⟨(), rfl⟩ trivial rfl
  have waits :=
    done.step (.send 1 () ⟨9, [4]⟩ false 0) rfl (fun free => absurd free (by decide)) rfl
  have irq := waits.step (.irqSend () ⟨5, [2]⟩) trivial (show 1 < 2 ^ 15 - 1 by decide) rfl
  have got := irq.step (.receive 2 () false 0) rfl trivial rfl
  exact ⟨_, got, rfl, (run_messages got).2.2.2.1 2 () _ rfl, rfl⟩

/-- The wait of the only sender times out between the look at `nwaitnotfull` and the search, which
runs off the list. Two tasks that find room one after the other queue two messages where there is
room for one. And a receiver that is deleted while it waits stays counted. -/
theorem wakeSender_runs_off :
    (∃ s : State (Fin 3) Unit, Run (fun _ _ => True) s ∧ Valid s (.wakeSender 2) ∧
      step s (.wakeSender 2) = none) ∧
    (∃ s : State (Fin 3) Unit, Run (fun _ _ => True) s ∧ (s.queue ()).maxmsgs = 1 ∧
      (s.queue ()).msglist = [⟨0, false, ⟨3, [1]⟩⟩, ⟨1, false, ⟨3, [4]⟩⟩]) ∧
    ∃ s : State (Fin 3) Unit, Run (fun _ _ => True) s ∧ s.notempty = [] ∧
      (s.queue ()).nwaitnotempty = 1 ∧ Valid s (.wakeReceiver 0) ∧
      step s (.wakeReceiver 0) = none := by
  have first : Run (fun _ _ => True) oneMessage := .init _ _
  have room := first.step (.send 0 () ⟨3, [1]⟩ false 0) rfl trivial rfl
  refine ⟨?_, ?_, ?_⟩
  · have queued := room.step (.insert 0) ⟨(), ⟨3, [1]⟩, rfl⟩ trivial rfl
    have waits := queued.step (.send 1 () ⟨3, [4]⟩ false 0) rfl trivial rfl
    have got := waits.step (.receive 2 () false 0) rfl trivial rfl
    have seen := got.step (.deliver 2) ⟨(), _, rfl⟩ trivial rfl
    have expired := seen.step (.interrupt 1 .etimedout) trivial trivial rfl
    exact ⟨_, expired, ⟨(), rfl⟩, rfl⟩
  · have both := room.step (.send 1 () ⟨3, [4]⟩ false 0) rfl trivial rfl
    have queued := both.step (.insert 0) ⟨(), ⟨3, [1]⟩, rfl⟩ trivial rfl
    have second := queued.step (.insert 1) ⟨(), ⟨3, [4]⟩, rfl⟩ trivial rfl
    exact ⟨_, second, rfl, rfl⟩
  have waits := first.step (.receive 1 () false 0) rfl trivial rfl
  have deleted := waits.step (.terminate 1) trivial trivial rfl
  have room := deleted.step (.send 0 () ⟨3, [1]⟩ false 0) rfl trivial rfl
  have queued := room.step (.insert 0) ⟨(), ⟨3, [1]⟩, rfl⟩ trivial rfl
  exact ⟨_, queued, rfl, rfl, ⟨(), rfl⟩, rfl⟩

end NuttxRtos.Mqueue
