import NuttxRtos.Semaphore.HolderRecords

/-!
# The holders over whole runs

The functions of `sched/semaphore` with their effect on the records. A walk over the holders runs
without interruption, except in `nxsem_canceled`, where the priority of the running task may be
lowered, and `nxsem_post` may be switched out before it frees the record of the caller.
-/

namespace NuttxRtos.Semaphore.Holders

open Chain List

/-- The semaphores, the records, the tasks that exist, and which semaphores have priority
inheritance. A task switched out in `nxsem_post` is recorded with the semaphore, an interrupted walk
with the record it visits next. `net` counts what each task obtained less what it posted. -/
structure State (ρ τ κ : Type) where
  sem : Semaphore.State τ κ
  holders : Holders ρ τ κ
  alive : τ → Bool
  inherit : κ → Bool
  posting : List (τ × κ)
  walking : List (κ × ρ)
  net : τ → κ → ℤ

section

variable {ρ τ κ : Type}

section

variable [DecidableEq ρ] [DecidableEq τ] [DecidableEq κ] [Fintype ρ]

def addHolder (s : State ρ τ κ) (k : κ) (t : τ) : Option (State ρ τ κ) := do
  let holders ← if s.inherit k then s.holders.addHolderTcb k t else some s.holders
  return { s with holders := holders, net := bumpNet s.net t k 1 }

def wait (s : State ρ τ κ) (t : τ) (k : κ) (pos : ℕ) : Option (State ρ τ κ) := do
  let s' := { s with sem := Semaphore.wait s.sem t k pos }
  if 0 < s.sem.semcount k then addHolder s' k t
  else
    let holders ← s.holders.boostPriority s.alive k
    return { s' with holders := holders }

/-- `nxsem_trywait`, with which `nxsem_timedwait` begins. It adds no holder. -/
def trywait (s : State ρ τ κ) (t : τ) (k : κ) : State ρ τ κ :=
  { s with
    sem := Semaphore.trywait s.sem t k
    net := if 0 < s.sem.semcount k then bumpNet s.net t k 1 else s.net }

/-- The task that a post gives the count to. -/
def receiver (s : Semaphore.State τ κ) (k : κ) : Option τ :=
  if s.semcount k + 1 ≤ 0 then s.waiting.find? fun t => s.waitsem t = some k else none

/-- `nxsem_post` from the count on: the receiver becomes a holder and the priorities are
restored. -/
def give (s : State ρ τ κ) (k : κ) : Option (State ρ τ κ) := do
  let s' := { s with sem := Semaphore.post s.sem k }
  match receiver s.sem k with
  | none => return s'
  | some stcb =>
    let s' ← addHolder s' k stcb
    let holders ← s'.holders.restoreBaseprio s.alive k
    return { s' with holders := holders }

/-- `nxsem_post` by a task up to the place where its own priority is restored. -/
def post (s : State ρ τ κ) (t : τ) (k : κ) : Option (State ρ τ κ) := do
  if semValueMax ≤ s.sem.semcount k then return s
  else
    let holders ← s.holders.releaseHolder k t
    give { s with
      holders := holders
      net := bumpNet s.net t k (-1)
      posting := (t, k) :: s.posting } k

/-- `nxsem_post` in an interrupt handler, while the task runs. -/
def irqPost (s : State ρ τ κ) (t : τ) (k : κ) : Option (State ρ τ κ) := do
  if semValueMax ≤ s.sem.semcount k then return s
  else
    let holders ← s.holders.releaseHolder k t
    give { s with holders := holders } k

def postEnd (s : State ρ τ κ) (t : τ) (k : κ) : Option (State ρ τ κ) := do
  let holders ← s.holders.findandfreeholder k t
  return { s with holders := holders, posting := s.posting.erase (t, k) }

def goOn (walking : List (κ × ρ)) (k : κ) (next : Option ρ) : List (κ × ρ) :=
  next.toList.map (fun r => (k, r)) ++ walking

/-- The end of a wait begins with the walk of `nxsem_canceled`. -/
def cancelStart (s : State ρ τ κ) (t : τ) : Option (State ρ τ κ) := do
  let sem ← Semaphore.cancelStart s.sem t
  if t ∈ s.sem.waiting then
    let k ← s.sem.waitsem t
    return { s with sem := sem, walking := goOn s.walking k (s.holders.hhead k) }
  else return s

def walk (s : State ρ τ κ) (k : κ) (r : ρ) : Option (State ρ τ κ) := do
  let holders ← s.holders.restoreholderprio s.alive k r
  return { s with
    holders := holders
    walking := goOn (s.walking.erase (k, r)) k (s.holders.flink r) }

def destroy (s : State ρ τ κ) (k : κ) : Option (State ρ τ κ) := do
  let holders ← s.holders.destroyholder k
  let semcount :=
    if 0 ≤ s.sem.semcount k then Function.update s.sem.semcount k 1 else s.sem.semcount
  return { s with
    sem := { s.sem with semcount := semcount }
    holders := holders
    net := fun t => Function.update (s.net t) k 0 }

/-- A task begins or ends in these ways; a TCB that was released may be used for a new task. -/
inductive HolderOp (ρ τ κ : Type) where
  | wait (t : τ) (k : κ) (pos : ℕ)
  | trywait (t : τ) (k : κ)
  | post (t : τ) (k : κ)
  | irqPost (t : τ) (k : κ)
  | postEnd (t : τ) (k : κ)
  | cancelStart (t : τ)
  | walk (k : κ) (r : ρ)
  | cancelFinish (t : τ) (k : κ)
  | destroy (k : κ)
  | exit (t : τ)
  | create (t : τ)

def step (s : State ρ τ κ) : HolderOp ρ τ κ → Option (State ρ τ κ)
  | .wait t k pos => wait s t k pos
  | .trywait t k => some (trywait s t k)
  | .post t k => post s t k
  | .irqPost t k => irqPost s t k
  | .postEnd t k => postEnd s t k
  | .cancelStart t => cancelStart s t
  | .walk k r => walk s k r
  | .cancelFinish t k => some { s with sem := Semaphore.cancelFinish s.sem t k }
  | .destroy k => destroy s k
  | .exit t => some { s with
      sem := Semaphore.terminate s.sem t
      alive := Function.update s.alive t false }
  | .create t => some { s with
      alive := Function.update s.alive t true
      net := Function.update s.net t fun _ => 0 }

/-- The task exists, is not blocked and was not switched out. -/
def Active (s : State ρ τ κ) (t : τ) : Prop :=
  s.alive t = true ∧ t ∉ s.sem.waiting ∧ ∀ p ∈ s.posting, p.1 ≠ t

def Valid (s : State ρ τ κ) : HolderOp ρ τ κ → Prop
  | .wait t _ _ | .trywait t _ | .post t _ => Active s t
  | .irqPost t _ | .exit t => s.alive t = true
  | .postEnd t k => (t, k) ∈ s.posting ∧ s.alive t = true
  | .walk k r => (k, r) ∈ s.walking
  | .cancelFinish t k => (t, k) ∈ s.sem.cancelling
  | .create t => s.alive t = false
  | .cancelStart _ | .destroy _ => True

/-- `nxsem_initialize_holders`; the records are given in their order. -/
def initialHolders (records : List ρ) : Holders ρ τ κ where
  htcb := fun _ => none
  counts := fun _ => 0
  flink := fun r => records[records.idxOf r + 1]?
  hhead := fun _ => none
  freeholders := records.head?

def initial (records : List ρ) (count : κ → ℕ) (inherit : κ → Bool) (alive : τ → Bool) :
    State ρ τ κ where
  sem := initialState count
  holders := initialHolders records
  alive := alive
  inherit := inherit
  posting := []
  walking := []
  net := fun _ _ => 0

inductive Run (condition : State ρ τ κ → HolderOp ρ τ κ → Prop) : State ρ τ κ → Prop where
  | init (records : List ρ) (nodup : records.Nodup) (all : ∀ r, r ∈ records) (count : κ → ℕ)
      (inherit : κ → Bool) (alive : τ → Bool) :
      Run condition (initial records count inherit alive)
  | step {s s' : State ρ τ κ} (run : Run condition s) (op : HolderOp ρ τ κ) (valid : Valid s op)
      (allowed : condition s op) (returns : step s op = some s') : Run condition s'

/-- The task has a record for the semaphore or there is a free one, and one count more still fits
into the record. -/
def Room (s : State ρ τ κ) (k : κ) (t : τ) : Prop :=
  (s.holders.findholder k t = some none → s.holders.freeholders ≠ none) ∧ s.net t k < 2 ^ 15 - 1

instance (s : State ρ τ κ) (k : κ) (t : τ) : Decidable (Room s k t) :=
  inferInstanceAs (Decidable (_ ∧ _))

/-- On a semaphore with priority inheritance, a count is taken with `nxsem_wait` and posted by a
holder; an interrupt handler posts only while the interrupted task holds none; records suffice; and
a TCB is used again only when no record names it. -/
def Regular (s : State ρ τ κ) : HolderOp ρ τ κ → Prop
  | .wait t k _ => s.inherit k = true → 0 < s.sem.semcount k → Room s k t
  | .trywait _ k => s.inherit k = true → ¬ 0 < s.sem.semcount k
  | .post t k => s.inherit k = true → 0 < s.net t k ∧ ∀ stcb ∈ receiver s.sem k, Room s k stcb
  | .irqPost t k => s.inherit k = true → s.net t k = 0 ∧ ∀ stcb ∈ receiver s.sem k, Room s k stcb
  | .create t => ∀ r, s.holders.htcb r ≠ some t
  | _ => True

end

/-! ## The invariant -/

/-- The tasks whose records must be there. -/
def Must (s : State ρ τ κ) (t : τ) (k : κ) : Prop := s.inherit k = true ∧ s.alive t = true

/-- The tasks that wait are alive, and each has its semaphore in `waitsem`. -/
structure Waiting (alive : τ → Bool) (waiting : List τ) (waitsem : τ → Option κ) : Prop where
  nodup : waiting.Nodup
  living : ∀ t ∈ waiting, alive t = true
  on : ∀ t ∈ waiting, ∃ k, waitsem t = some k

/-- The records agree with the accounts. -/
structure Inv (s : State ρ τ κ) : Prop where
  records : ∃ free held, Records s.inherit (Must s) s.net s.holders free held
  waiting : Waiting s.alive s.sem.waiting s.sem.waitsem

theorem initialHolders_path [DecidableEq ρ] {records : List ρ} (nodup : records.Nodup)
    (l₁ l₂ : List ρ)
    (split : records = l₁ ++ l₂) :
    Path (initialHolders records : Holders ρ τ κ).flink l₂.head? l₂ := by
  induction l₂ generalizing l₁ with
  | nil => rfl
  | cons r l₂ ih =>
    refine ⟨rfl, ?_⟩
    have position : records.idxOf r = l₁.length := by
      rw [split] at nodup ⊢
      have absent : r ∉ l₁ := fun inside =>
        (nodup_append.1 nodup).2.2 r inside r mem_cons_self rfl
      rw [idxOf_append_of_notMem absent, idxOf_cons_self, Nat.add_zero]
    have next : (initialHolders records : Holders ρ τ κ).flink r = l₂.head? := by
      change records[records.idxOf r + 1]? = l₂.head?
      rw [position, split]
      simp [getElem?_append_right, head?_eq_getElem?]
    rw [next]
    exact ih (l₁ ++ [r]) (by simp [split])

theorem initial_inv [DecidableEq ρ] {records : List ρ} (nodup : records.Nodup)
    (all : ∀ r, r ∈ records)
    (count : κ → ℕ) (inherit : κ → Bool) (alive : τ → Bool) :
    Inv (initial records count inherit alive : State ρ τ κ) where
  records := by
    refine ⟨records, fun _ => [], ⟨initialHolders_path nodup [] records rfl, fun _ => rfl,
      by simp, by simp, fun r => .inl (all r)⟩, by simp, by simp, by simp, ?_, ?_⟩
    · exact fun _ _ _ _ => rfl
    · exact fun _ _ _ => Int.le_refl 0
  waiting := ⟨nodup_nil, by simp [initial, initialState], by simp [initial, initialState]⟩

section

variable [DecidableEq τ]

variable {alive : τ → Bool} {waiting : List τ} {waitsem : τ → Option κ} {t : τ}

variable (waits : Waiting alive waiting waitsem)
include waits

theorem Waiting.update (absent : t ∉ waiting)
    (x : Option κ) : Waiting alive waiting (Function.update waitsem t x) := by
  refine ⟨waits.nodup, waits.living, fun u member => ?_⟩
  rw [Function.update_of_ne fun same : u = t => absent (same ▸ member)]
  exact waits.on u member

theorem Waiting.remove (t : τ) :
    Waiting alive (waiting.erase t) (Function.update waitsem t none) := by
  have fewer : Waiting alive (waiting.erase t) waitsem :=
    ⟨waits.nodup.erase t, fun u member => waits.living u (mem_of_mem_erase member),
      fun u member => waits.on u (mem_of_mem_erase member)⟩
  exact fewer.update waits.nodup.not_mem_erase none

theorem Waiting.insert (absent : t ∉ waiting) (living : alive t = true) (k : κ) (pos : ℕ) :
    Waiting alive (waiting.take pos ++ t :: waiting.drop pos)
      (Function.update waitsem t (some k)) := by
  have perm : (waiting.take pos ++ t :: waiting.drop pos).Perm (t :: waiting) := by
    refine perm_middle.trans (.cons t ?_)
    rw [take_append_drop]
  refine ⟨perm.nodup_iff.2 (nodup_cons.2 ⟨absent, waits.nodup⟩), fun u member => ?_,
    fun u member => ?_⟩
  · cases mem_cons.1 (perm.mem_iff.1 member) with
    | inl same => exact same ▸ living
    | inr old => exact waits.living u old
  by_cases same : u = t
  · exact ⟨k, by simp [same]⟩
  have old := (mem_cons.1 (perm.mem_iff.1 member)).resolve_left same
  obtain ⟨j, on⟩ := waits.on u old
  exact ⟨j, by simpa [same] using on⟩

end

variable {s : State ρ τ κ} {t : τ} {k : κ}

theorem must_alive (t : τ) (k : κ) (has : Must s t k) : s.alive t = true := has.2

theorem post_waiting [DecidableEq τ] [DecidableEq κ]
    (waits : Waiting s.alive s.sem.waiting s.sem.waitsem) (k : κ) :
    Waiting s.alive (Semaphore.post s.sem k).waiting (Semaphore.post s.sem k).waitsem := by
  unfold Semaphore.post
  split
  · exact waits
  dsimp only
  split
  · split
    · exact waits
    · exact waits.remove _
  · exact waits

variable [DecidableEq ρ] [DecidableEq τ] [DecidableEq κ] [Fintype ρ]

theorem addHolder_inv (inv : Inv s) (living : s.alive t = true)
    (room : s.inherit k = true → Room s k t) :
    ∃ s', addHolder s k t = some s' ∧ Inv s' ∧ s'.alive = s.alive := by
  obtain ⟨free, held, records⟩ := inv.records
  cases on : s.inherit k with
  | true =>
    obtain ⟨holders, free', held', added, records'⟩ :=
      records.addHolderTcb on ⟨on, living⟩ (room on).1 (room on).2
    exact ⟨{ s with holders := holders, net := bumpNet s.net t k 1 },
      by simp [addHolder, on, added], ⟨⟨free', held', records'⟩, inv.waiting⟩, rfl⟩
  | false =>
    refine ⟨{ s with net := bumpNet s.net t k 1 }, by simp [addHolder, on],
      ⟨⟨free, held, records.change_net ?_⟩, inv.waiting⟩, rfl⟩
    intro u j has
    refine bumpNet_other 1 fun same => ?_
    simp [same.2, Must, on] at has

theorem give_inv (inv : Inv s)
    (room : s.inherit k = true → ∀ stcb ∈ receiver s.sem k, Room s k stcb) :
    ∃ s', give s k = some s' ∧ Inv s' := by
  have posted : Inv { s with sem := Semaphore.post s.sem k } :=
    ⟨inv.records, post_waiting inv.waiting k⟩
  cases next : receiver s.sem k with
  | none => exact ⟨_, by simp [give, next], posted⟩
  | some stcb =>
    have member : stcb ∈ s.sem.waiting := by
      unfold receiver at next
      split at next
      · exact mem_of_find?_eq_some next
      · cases next
    obtain ⟨s', added, inv', living⟩ :=
      addHolder_inv (t := stcb) (k := k) posted (inv.waiting.living stcb member)
        fun on => room on stcb next
    obtain ⟨free, held, records⟩ := inv'.records
    obtain ⟨holders, free', held', walked, records'⟩ := records.restoreBaseprio must_alive k
    refine ⟨{ s' with holders := holders }, ?_, ⟨free', held', records'⟩, inv'.waiting⟩
    rw [living] at walked
    simp [give, next, added, walked]

theorem wait_inv (inv : Inv s) (active : Active s t) {pos : ℕ}
    (room : s.inherit k = true → 0 < s.sem.semcount k → Room s k t) :
    ∃ s', wait s t k pos = some s' ∧ Inv s' := by
  by_cases positive : 0 < s.sem.semcount k
  · have taken : Inv { s with sem := Semaphore.wait s.sem t k pos } := by
      refine ⟨inv.records, ?_⟩
      rw [Semaphore.wait, if_pos positive]
      exact inv.waiting.update active.2.1 none
    obtain ⟨s', added, inv', _⟩ := addHolder_inv (t := t) (k := k) taken active.1
      fun on => room on positive
    exact ⟨s', by simp [wait, positive, added], inv'⟩
  obtain ⟨free, held, records⟩ := inv.records
  obtain ⟨holders, free', held', walked, records'⟩ := records.boostPriority must_alive k
  refine ⟨_, by simp [wait, positive, walked]; rfl, ⟨free', held', records'⟩, ?_⟩
  rw [Semaphore.wait, if_neg positive]
  exact inv.waiting.insert active.2.1 active.1 k pos

theorem post_inv (inv : Inv s) (active : Active s t)
    (regular : s.inherit k = true → 0 < s.net t k ∧ ∀ stcb ∈ receiver s.sem k, Room s k stcb) :
    ∃ s', post s t k = some s' ∧ Inv s' := by
  unfold post
  split
  · exact ⟨s, rfl, inv⟩
  obtain ⟨free, held, records⟩ := inv.records
  have released : ∃ holders, s.holders.releaseHolder k t = some holders ∧
      Records s.inherit (Must s) (bumpNet s.net t k (-1)) holders free held := by
    cases on : s.inherit k with
    | true => exact records.releaseHolder ⟨on, active.1⟩ (regular on).1
    | false =>
      refine ⟨_, records.releaseHolder_idle (by simp [on]), records.change_net ?_⟩
      intro u j has
      refine bumpNet_other _ fun same => ?_
      simp [same.2, Must, on] at has
  obtain ⟨holders, returned, records'⟩ := released
  rw [returned]
  obtain ⟨counts, rfl⟩ := releaseHolder_counts returned
  refine give_inv ⟨⟨free, held, records'⟩, inv.waiting⟩ fun on stcb next => ?_
  obtain ⟨free, few⟩ := (regular on).2 stcb next
  exact ⟨free, (bumpNet_le (by decide)).trans_lt few⟩

theorem step_inv (inv : Inv s) (op : HolderOp ρ τ κ) (valid : Valid s op) (regular : Regular s op) :
    ∃ s', step s op = some s' ∧ Inv s' := by
  obtain ⟨free, held, records⟩ := inv.records
  cases op with
  | wait t k pos => exact wait_inv inv valid regular
  | trywait t k =>
    refine ⟨trywait s t k, rfl, ?_, ?_⟩
    · refine ⟨free, held, records.change_net fun u j has => ?_⟩
      rw [trywait]
      split
      · rename_i positive
        refine bumpNet_other 1 fun same => ?_
        cases has with
        | inl on => exact regular (same.2 ▸ on) positive
        | inr has => exact regular (same.2 ▸ has.1) positive
      · rfl
    unfold trywait Semaphore.trywait
    split
    · exact inv.waiting.update valid.2.1 none
    · exact inv.waiting
  | post t k => exact post_inv inv valid regular
  | irqPost t k =>
    rw [step, irqPost]
    split
    · exact ⟨s, rfl, inv⟩
    · rw [records.releaseHolder_idle fun on => (regular on).1]
      exact give_inv inv fun on => (regular on).2
  | postEnd t k =>
    obtain ⟨holders, free', held', freed, records'⟩ := records.findandfreeholder k t
    rw [step, postEnd, freed]
    exact ⟨_, rfl, ⟨free', held', records'⟩, inv.waiting⟩
  | cancelStart t =>
    by_cases member : t ∈ s.sem.waiting
    · obtain ⟨k, on⟩ := inv.waiting.on t member
      refine ⟨_, by simp [step, cancelStart, Semaphore.cancelStart, member, on]; rfl, ?_⟩
      exact ⟨⟨free, held, records⟩, inv.waiting⟩
    · exact ⟨s, by simp [step, cancelStart, Semaphore.cancelStart, member], inv⟩
  | walk k r =>
    obtain ⟨holders, free', held', walked, records'⟩ := records.restoreholderprio must_alive k r
    rw [step, walk, walked]
    exact ⟨_, rfl, ⟨free', held', records'⟩, inv.waiting⟩
  | cancelFinish t k => exact ⟨_, rfl, ⟨free, held, records⟩, inv.waiting.remove t⟩
  | destroy k =>
    obtain ⟨holders, free', held', freed, records'⟩ := records.destroyholder k
    rw [step, destroy, freed]
    exact ⟨_, rfl, ⟨free', held', records'⟩, inv.waiting⟩
  | exit t =>
    refine ⟨_, rfl, ⟨free, held, records.lists, records.holder, records.once, records.plain,
      fun j u has absent => ?_, records.nonneg⟩, ?_⟩
    · obtain ⟨on, living⟩ := has
      have other : u ≠ t := by
        rintro rfl
        simp at living
      exact records.unheld j u ⟨on, by simpa [other] using living⟩ absent
    refine ⟨inv.waiting.nodup.erase t, fun u member => ?_, fun u member => ?_⟩
    · have other : u ≠ t := fun same => inv.waiting.nodup.not_mem_erase (same ▸ member)
      simpa [other] using inv.waiting.living u (mem_of_mem_erase member)
    · exact inv.waiting.on u (mem_of_mem_erase member)
  | create t =>
    refine ⟨_, rfl, ⟨free, held, records.lists, fun j r member => ?_, records.once, records.plain,
      fun j u has absent => ?_, fun j u on => ?_⟩, inv.waiting.nodup, fun u member => ?_,
      inv.waiting.on⟩
    · obtain ⟨u, owner, counts⟩ := records.holder j r member
      have other : u ≠ t := fun same => regular r (same ▸ owner)
      exact ⟨u, owner, by simpa [other] using counts⟩
    · by_cases same : u = t
      · simp [same]
      · obtain ⟨on, living⟩ := has
        simpa [same] using records.unheld j u ⟨on, by simpa [same] using living⟩ absent
    · by_cases same : u = t
      · simp [same]
      · simpa [same] using records.nonneg j u on
    by_cases same : u = t
    · simp [same]
    · simpa [same] using inv.waiting.living u member

theorem Run.inv (run : Run Regular s) : Inv s := by
  induction run with
  | init records nodup all count inherit alive => exact initial_inv nodup all count inherit alive
  | step _ op valid regular returns ih =>
    obtain ⟨s', returned, inv⟩ := step_inv ih op valid regular
    rw [returns, Option.some.injEq] at returned
    exact returned ▸ inv

/-- In regular runs: each record is on exactly one of the free list and the lists of the semaphores;
a semaphore has at most one record for a task, whose `counts` is what the task obtained less what it
posted; and every regular step returns. -/
theorem run_holders (run : Run Regular s) :
    (∃ (free : List ρ) (held : κ → List ρ), Path s.holders.flink s.holders.freeholders free ∧
      (∀ k, Path s.holders.flink (s.holders.hhead k) (held k)) ∧
      (∀ r, (r ∈ free ∨ ∃ k, r ∈ held k) ∧ ∀ k, r ∈ held k → r ∉ free ∧ ∀ j, r ∈ held j → j = k) ∧
      (∀ k, ∀ r ∈ held k, ∀ r' ∈ held k, s.holders.htcb r = s.holders.htcb r' → r = r') ∧
      ∀ k, ∀ r ∈ held k, ∃ t, s.holders.htcb r = some t ∧ s.holders.counts r = s.net t k) ∧
    ∀ op, Valid s op → Regular s op → ∃ s', step s op = some s' := by
  have inv := run.inv
  constructor
  · obtain ⟨free, held, records⟩ := inv.records
    refine ⟨free, held, records.lists.free_path, records.lists.held_path, fun r => ?_, records.once,
      records.holder⟩
    exact ⟨records.lists.all r, fun k member => ⟨records.lists.apart k r member,
      fun j inside => records.lists.alone j k r inside member⟩⟩
  intro op valid regular
  obtain ⟨s', returns, _⟩ := step_inv inv op valid regular
  exact ⟨s', returns⟩

end

def oneSemaphore (count : ℕ) : State (Fin 2) (Fin 2) Unit :=
  initial (finRange 2) (fun _ => count) (fun _ => true) fun _ => true

theorem oneSemaphore_run
    (condition : State (Fin 2) (Fin 2) Unit → HolderOp (Fin 2) (Fin 2) Unit → Prop)
    (count : ℕ) : Run condition (oneSemaphore count) :=
  .init (finRange 2) (by decide) (by decide) _ _ _

/-- The count goes from one task to another, which can post it again. -/
theorem run_holders_passed_on :
    ∃ s : State (Fin 2) (Fin 2) Unit, Run Regular s ∧ s.net 0 () = 0 ∧ s.net 1 () = 1 ∧
      ∃ s', step s (.post 1 ()) = some s' := by
  have first := oneSemaphore_run Regular 1
  have held := first.step (.wait 0 () 0) ⟨rfl, by decide, by decide⟩ (fun _ _ => by decide) rfl
  have waits :=
    held.step (.wait 1 () 0) ⟨rfl, by decide, by decide⟩
      (fun _ positive => absurd positive (by decide))
      rfl
  have given :=
    waits.step (.post 0 ()) ⟨rfl, by decide, by decide⟩ (fun _ => ⟨by decide, by decide⟩)
      rfl
  have ended := given.step (.postEnd 0 ()) ⟨mem_cons_self, rfl⟩ trivial rfl
  refine ⟨_, ended, rfl, rfl, (run_holders ended).2 (.post 1 ()) ⟨rfl, by decide, by decide⟩ ?_⟩
  exact fun _ => ⟨by decide, by decide⟩

/-- A count taken with `nxsem_trywait` is missing in the record. A post by an interrupt handler is
deducted from the interrupted task. And the record of a task that exited goes to the next user of
its TCB. -/
theorem trywait_not_recorded :
    (∃ s : State (Fin 2) (Fin 2) Unit, Run (fun _ _ => True) s ∧ s.holders.hhead () = some 0 ∧
      s.holders.htcb 0 = some 0 ∧ s.holders.counts 0 = 1 ∧ s.net 0 () = 2) ∧
    (∃ s : State (Fin 2) (Fin 2) Unit, Run (fun _ _ => True) s ∧ s.holders.hhead () = some 0 ∧
      s.holders.htcb 0 = some 0 ∧ s.holders.counts 0 = 0 ∧ s.net 0 () = 1) ∧
    ∃ s : State (Fin 2) (Fin 2) Unit, Run (fun _ _ => True) s ∧ s.holders.hhead () = some 0 ∧
      s.holders.htcb 0 = some 0 ∧ s.holders.counts 0 = 1 ∧ s.net 0 () = 0 := by
  have first := oneSemaphore_run (fun _ _ => True) 2
  have held := first.step (.wait 0 () 0) ⟨rfl, by decide, by decide⟩ trivial rfl
  refine ⟨?_, ?_, ?_⟩
  · have twice := held.step (.trywait 0 ()) ⟨rfl, by decide, by decide⟩ trivial rfl
    exact ⟨_, twice, rfl, rfl, rfl, rfl⟩
  · have posted := held.step (.irqPost 0 ()) rfl trivial rfl
    exact ⟨_, posted, rfl, rfl, rfl, rfl⟩
  have exited := held.step (.exit 0) rfl trivial rfl
  have created := exited.step (.create 0) rfl trivial rfl
  exact ⟨_, created, rfl, rfl, rfl, rfl⟩

end NuttxRtos.Semaphore.Holders
