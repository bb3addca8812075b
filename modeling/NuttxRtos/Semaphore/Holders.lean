import NuttxRtos.Lib.Chain
import NuttxRtos.Semaphore.Counting
import Mathlib.Data.Fintype.Card

/-!
# The holders of semaphores

`sched/semaphore/sem_holder.c` with `CONFIG_SEM_PREALLOCHOLDERS > 0`: the records of
`g_holderalloc`, linked through `flink` into the free list and into one list for each semaphore.
-/

namespace NuttxRtos.Semaphore

open List

open Function (update update_of_ne update_self)

open Chain

/-- `g_holderalloc`, `g_freeholders`, and `hhead` of every semaphore. The `counts` of a record is an
`int16_t`. -/
structure Holders (ρ τ κ : Type) where
  htcb : ρ → Option τ
  counts : ρ → ℤ
  flink : ρ → Option ρ
  hhead : κ → Option ρ
  freeholders : Option ρ

namespace Holders

variable {ρ τ κ : Type}

section

variable [DecidableEq ρ] [DecidableEq τ] [DecidableEq κ] [Fintype ρ]

/-- The steps after which a walk over a list without a cycle has ended. -/
def fuel (ρ : Type) [Fintype ρ] : ℕ := Fintype.card ρ + 1

/-- `nxsem_allocholder`; there is no result when no record is free. -/
def allocholder (h : Holders ρ τ κ) (k : κ) : Option (ρ × Holders ρ τ κ) :=
  h.freeholders.map fun pholder =>
    (pholder, { h with
      freeholders := h.flink pholder
      flink := Function.update h.flink pholder (h.hhead k)
      hhead := Function.update h.hhead k (some pholder)
      counts := Function.update h.counts pholder 0 })

def findholder (h : Holders ρ τ κ) (k : κ) (t : τ) : Option (Option ρ) :=
  findFirst h.flink (fun r => h.htcb r = some t) (fuel ρ) (h.hhead k)

def freeholder (h : Holders ρ τ κ) (k : κ) (pholder : ρ) : Option (Holders ρ τ κ) := do
  let h' := { h with
    htcb := Function.update h.htcb pholder none
    counts := Function.update h.counts pholder 0 }
  let (prev, found) ← findLink h.flink pholder (fuel ρ) none (h.hhead k)
  if found then
    return { h' with
      flink := Function.update (unlinkNext h.flink pholder prev) pholder h.freeholders
      hhead := Function.update h.hhead k (unlinkHead h.flink (h.hhead k) pholder prev)
      freeholders := some pholder }
  else return h'

def findandfreeholder (h : Holders ρ τ κ) (k : κ) (t : τ) : Option (Holders ρ τ κ) := do
  match ← h.findholder k t with
  | none => return h
  | some pholder => if h.counts pholder ≤ 0 then h.freeholder k pholder else return h

/-- `nxsem_foreachholder` from `pholder` on, with a handler that does not end it. The link is read
before the handler is called. -/
def foreachholder (handler : Holders ρ τ κ → ρ → Option (Holders ρ τ κ)) :
    ℕ → Holders ρ τ κ → Option ρ → Option (Holders ρ τ κ)
  | 0, _, _ => none
  | _ + 1, h, none => some h
  | n + 1, h, some pholder =>
    let next := h.flink pholder
    if (h.htcb pholder).isSome then do
      let h ← handler h pholder
      foreachholder handler n h next
    else foreachholder handler n h next

/-- `nxsem_add_holder_tcb`. -/
def addHolderTcb (h : Holders ρ τ κ) (k : κ) (t : τ) : Option (Holders ρ τ κ) := do
  let add := fun (h : Holders ρ τ κ) (pholder : ρ) => { h with
    htcb := Function.update h.htcb pholder (some t)
    counts := Function.update h.counts pholder ((h.counts pholder + 1).bmod (2 ^ 16)) }
  match ← h.findholder k t with
  | some pholder => return add h pholder
  | none =>
    match h.allocholder k with
    | some (pholder, h) => return add h pholder
    | none => return h

def releaseHolder (h : Holders ρ τ κ) (k : κ) (t : τ) : Option (Holders ρ τ κ) := do
  match ← h.findholder k t with
  | none => return h
  | some pholder =>
    if 0 < h.counts pholder then
      return { h with counts := Function.update h.counts pholder (h.counts pholder - 1) }
    else return h

/-- The TCB in the record belongs to no task any more. -/
def stale (alive : τ → Bool) (h : Holders ρ τ κ) (pholder : ρ) : Bool :=
  (h.htcb pholder).any fun t => !alive t

/-- What `nxsem_boostholderprio` does to the records. -/
def boostholderprio (alive : τ → Bool) (k : κ) (h : Holders ρ τ κ) (pholder : ρ) :
    Option (Holders ρ τ κ) :=
  if h.stale alive pholder then h.freeholder k pholder else some h

/-- What `nxsem_restoreholderprio` does to the records. -/
def restoreholderprio (alive : τ → Bool) (k : κ) (h : Holders ρ τ κ) (pholder : ρ) :
    Option (Holders ρ τ κ) :=
  match h.htcb pholder with
  | none => some h
  | some t =>
    if alive t then some h
    else do
      match ← h.findholder k t with
      | none => return h
      | some pholder => h.freeholder k pholder

def boostPriority (alive : τ → Bool) (h : Holders ρ τ κ) (k : κ) : Option (Holders ρ τ κ) :=
  foreachholder (boostholderprio alive k) (fuel ρ) h (h.hhead k)

/-- The walk of `nxsem_restore_baseprio` over the holders other than the running task, which is
alive, or over all of them. -/
def restoreBaseprio (alive : τ → Bool) (h : Holders ρ τ κ) (k : κ) : Option (Holders ρ τ κ) :=
  foreachholder (restoreholderprio alive k) (fuel ρ) h (h.hhead k)

/-- The walk of `nxsem_destroyholder`, as long as it is not interrupted. -/
def destroyholder (h : Holders ρ τ κ) (k : κ) : Option (Holders ρ τ κ) :=
  foreachholder (fun h pholder => h.freeholder k pholder) (fuel ρ) h (h.hhead k)

end

/-! ## Lists -/

/-- The records are partitioned into the free list and the lists of the semaphores. -/
structure Lists (h : Holders ρ τ κ) (free : List ρ) (held : κ → List ρ) : Prop where
  free_path : Path h.flink h.freeholders free
  held_path : ∀ k, Path h.flink (h.hhead k) (held k)
  apart : ∀ k, ∀ r ∈ held k, r ∉ free
  alone : ∀ j k r, r ∈ held j → r ∈ held k → j = k
  all : ∀ r, r ∈ free ∨ ∃ k, r ∈ held k

variable {h h' : Holders ρ τ κ} {free : List ρ} {held : κ → List ρ} {k : κ} {r : ρ} {t : τ}

/-- A walk ends if each round keeps what is known of the records that are still to be visited. -/
theorem foreachholder_spec (handler : Holders ρ τ κ → ρ → Option (Holders ρ τ κ))
    {Q : Holders ρ τ κ → List ρ → Prop}
    (round : ∀ h r rest, Q h (r :: rest) → h.flink r = rest.head? ∧ (h.htcb r).isSome ∧
      ∃ h', handler h r = some h' ∧ Q h' rest)
    (rest : List ρ) (n : ℕ) (h : Holders ρ τ κ) (start : Q h rest) (enough : rest.length < n) :
    ∃ h', foreachholder handler n h rest.head? = some h' ∧ Q h' [] := by
  induction rest generalizing n h with
  | nil =>
    cases n with
    | zero => cases enough
    | succ n => exact ⟨h, rfl, start⟩
  | cons r rest ih =>
    cases n with
    | zero => cases enough
    | succ n =>
      obtain ⟨link, held, h', returned, kept⟩ := round h r rest start
      obtain ⟨h'', ended, last⟩ := ih n h' kept (Nat.lt_of_succ_lt_succ enough)
      refine ⟨h'', ?_, last⟩
      rw [head?_cons, foreachholder, if_pos held, returned, link]
      exact ended

theorem Lists.next_eq (lists : Lists h free held) {pre rest : List ρ}
    (split : held k = pre ++ r :: rest) : h.flink r = rest.head? := by
  have path := lists.held_path k
  rw [split] at path
  exact path.suffix.2.head_eq

theorem Lists.enough [Fintype ρ] (lists : Lists h free held) (k : κ) : (held k).length < fuel ρ :=
  Nat.lt_succ_of_le (lists.held_path k).nodup.length_le_card

theorem Lists.findholder_eq [DecidableEq τ] [Fintype ρ] (lists : Lists h free held)
    (k : κ) (t : τ) :
    h.findholder k t = some ((held k).find? fun r => h.htcb r = some t) :=
  (lists.held_path k).findFirst_eq (lists.enough k)

theorem mem_put [DecidableEq κ] {b : ρ} {j : κ} :
    b ∈ update held k (r :: held k) j ↔ b = r ∧ j = k ∨ b ∈ held j := by
  by_cases same : j = k
  · subst same
    simp
  · simp [same]

section

variable [DecidableEq ρ] [DecidableEq κ]

theorem Lists.mem_taken (lists : Lists h free held) (member : r ∈ held k) {b : ρ} {j : κ} :
    b ∈ update held k ((held k).erase r) j ↔ b ≠ r ∧ b ∈ held j := by
  by_cases same : j = k
  · subst same
    rw [update_self, (lists.held_path j).nodup.mem_erase_iff]
  · rw [update_of_ne same, iff_and_self]
    rintro inside rfl
    exact same (lists.alone j k b inside member)

theorem Lists.alloc (lists : Lists h (r :: free) held) (k : κ) :
    ∃ h', h.allocholder k = some (r, h') ∧
      Lists h' free (update held k (r :: held k)) ∧ h'.htcb = h.htcb ∧
      h'.counts = update h.counts r 0 := by
  have first : h.freeholders = some r := lists.free_path.1
  have nodup := nodup_cons.1 lists.free_path.nodup
  have absent : ∀ j, r ∉ held j := fun j member => lists.apart j r member mem_cons_self
  have kept : ∀ l : List ρ, r ∉ l → ∀ b ∈ l,
      update h.flink r (h.hhead k) b = h.flink b := fun l absent b member =>
    update_of_ne (fun same : b = r => absent (same ▸ member)) _ _
  refine ⟨_, congrArg (Option.map _) first, ?_, rfl, rfl⟩
  constructor
  · exact lists.free_path.2.congr (kept _ nodup.1)
  · intro j
    by_cases same : j = k
    · subst same
      simp only [update_self]
      exact ((lists.held_path j).congr (kept _ (absent j))).cons (update_self ..)
    · simp only [ne_eq, same, not_false_eq_true, update_of_ne]
      exact (lists.held_path j).congr (kept _ (absent j))
  · intro j b member
    rcases mem_put.1 member with ⟨rfl, _⟩ | old
    · exact nodup.1
    · exact fun inside => lists.apart j b old (mem_cons_of_mem r inside)
  · intro i j b in_i in_j
    rcases mem_put.1 in_i with ⟨rfl, rfl⟩ | old
    · exact ((mem_put.1 in_j).resolve_right (absent j)).2.symm
    · refine lists.alone i j b old ((mem_put.1 in_j).resolve_left ?_)
      rintro ⟨rfl, _⟩
      exact absent i old
  intro b
  cases lists.all b with
  | inl inside =>
    cases mem_cons.1 inside with
    | inl here => exact .inr ⟨k, by simp [here]⟩
    | inr rest => exact .inl rest
  | inr inside =>
    obtain ⟨j, member⟩ := inside
    exact .inr ⟨j, mem_put.2 (.inr member)⟩

theorem Lists.free_mem [Fintype ρ] (lists : Lists h free held) (member : r ∈ held k) :
    ∃ h', h.freeholder k r = some h' ∧ Lists h' (r :: free) (update held k ((held k).erase r)) ∧
      h'.htcb = update h.htcb r none ∧ h'.counts = update h.counts r 0 := by
  obtain ⟨l₁, l₂, split⟩ := append_of_mem member
  have path := lists.held_path k
  have nodup := path.nodup
  rw [split] at path nodup
  have absent : r ∉ l₁ := fun inside =>
    (nodup_append.1 nodup).2.2 r inside r mem_cons_self rfl
  have erased : (held k).erase r = l₁ ++ l₂ := by
    rw [split, erase_append_right _ absent, erase_cons_head]
  have found : findLink h.flink r (fuel ρ) none (h.hhead k) = some (lastOr none l₁, true) := by
    refine findLink_of_mem path absent (lt_of_le_of_lt ?_ (lists.enough k))
    simp [split]
  have in_held : ∀ b, lastOr none l₁ = some b → b ∈ held k := by
    intro b last
    cases lastOr_mem last with
    | inl nothing => cases nothing
    | inr inside => simp [split, inside]
  -- Outside this list no link changes.
  have kept : ∀ l : List ρ, (∀ b ∈ l, b ∉ held k) → ∀ b ∈ l,
      update (unlinkNext h.flink r (lastOr none l₁)) r h.freeholders b = h.flink b := by
    intro l outside b inside
    have other : b ≠ r := fun same => outside b inside (same ▸ member)
    rw [update_of_ne other]
    exact unlinkNext_other other fun last => outside b inside (in_held b last)
  refine ⟨_, by rw [freeholder, found]; rfl, ?_, rfl, rfl⟩
  constructor
  · refine Path.cons (lists.free_path.congr (kept _ fun b inside out => ?_)) (update_self ..)
    exact lists.apart k b out inside
  · intro j
    by_cases same : j = k
    · subst same
      simp only [update_self, erased]
      refine path.unlink.congr fun b inside => update_of_ne ?_ _ _
      rintro rfl
      rw [← erased] at inside
      exact (lists.held_path j).nodup.not_mem_erase inside
    · simp only [ne_eq, same, not_false_eq_true, update_of_ne]
      exact (lists.held_path j).congr
        (kept _ fun b inside out => same (lists.alone j k b inside out))
  · intro j b inside free
    obtain ⟨other, inside⟩ := (lists.mem_taken member).1 inside
    exact lists.apart j b inside ((mem_cons.1 free).resolve_left other)
  · intro i j b in_i in_j
    exact lists.alone i j b ((lists.mem_taken member).1 in_i).2 ((lists.mem_taken member).1 in_j).2
  intro b
  by_cases here : b = r
  · exact .inl (by simp [here])
  cases lists.all b with
  | inl inside => exact .inl (mem_cons_of_mem r inside)
  | inr inside =>
    obtain ⟨j, inside⟩ := inside
    exact .inr ⟨j, (lists.mem_taken member).2 ⟨here, inside⟩⟩

end

end Holders

end NuttxRtos.Semaphore
