import NuttxRtos.Rwbuffer.Coherence

/-!
# The semaphores of the read/write buffer

What the functions of `drivers/rwbuffer.c` do to `wrsem` and `rhsem` on every path: a wait may be
interrupted, and a callback of the driver may fail. Without interruptions, the model of the data
returns exactly on the paths that are disciplined.
-/

namespace NuttxRtos.Rwbuffer.Semaphores

inductive Sem where
  | wr
  | rh
  deriving DecidableEq

inductive Act where
  | wait (sem : Sem) (taken : Bool)
  | give (sem : Sem)

/-- What happens at the waits and at the callbacks of a call, by their order in the source. -/
structure Oracle where
  woken : ℕ → Bool
  done : ℕ → Bool

/-- The actions of a piece of code, and whether it has not returned an error. -/
abbrev Path := List Act × Bool

def ok : Path := ([], true)

/-- `body` between a wait and the release; an error of the wait is returned. -/
def locked (sem : Sem) (woken : Bool) (body : Path) : Path :=
  if woken then (.wait sem true :: body.1 ++ [.give sem], body.2) else ([.wait sem false], false)

def andThen (first second : Path) : Path :=
  if first.2 then (first.1 ++ second.1, second.2) else first

section

variable {β : Type} (g : Geometry) (rwb : Rwb β) (o : Oracle) (startblock : ℤ) (nblocks : ℕ)

def rwbRead_ (woken done : Bool) : Path :=
  if 0 < g.rhmaxblocks then locked .rh woken ([], done) else ([], done)

def rwbInvalidateWritebuffer (woken done : Bool) : Path :=
  if 0 < g.wrmaxblocks ∧ 0 < rwb.wrnblocks then locked .wr woken ([], done) else ok

def rwbInvalidateReadahead (woken : Bool) : Path :=
  if 0 < g.rhmaxblocks ∧ 0 < rwb.rhnblocks then locked .rh woken ok else ok

def rwbRead : Path :=
  andThen
    (if 0 < g.wrmaxblocks then
      locked .wr (o.woken 0)
        (if rwbOverlap rwb.wrblockstart rwb.wrnblocks startblock nblocks ∧
            startblock < rwb.wrblockstart then rwbRead_ g (o.woken 1) (o.done 0)
        else ok)
    else ok)
    (rwbRead_ g (o.woken 2) (o.done 1))

def rwbWrite : Path :=
  andThen
    (if 0 < g.rhmaxblocks then
      locked .rh (o.woken 0)
        (if rwbOverlap rwb.rhblockstart rwb.rhnblocks startblock nblocks ∧ g.invalidate then
          rwbInvalidateReadahead g rwb (o.woken 1)
        else ok)
    else ok)
    (if 0 < g.wrmaxblocks then locked .wr (o.woken 2) ([], o.done 0) else ([], o.done 0))

def rwbInvalidate : Path :=
  andThen (rwbInvalidateWritebuffer g rwb (o.woken 0) (o.done 0))
    (rwbInvalidateReadahead g rwb (o.woken 1))

def rwbMediaremoved : Path :=
  andThen (if 0 < g.wrmaxblocks then locked .wr (o.woken 0) ok else ok)
    (if 0 < g.rhmaxblocks then locked .rh (o.woken 1) ok else ok)

end

/-- `rwb_flush` waits until it has the semaphore. -/
def rwbFlush : Path := locked .wr true ok

inductive Call where
  | read (startblock : ℤ) (nblocks : ℕ)
  | write (startblock : ℤ) (nblocks : ℕ)
  | flush
  | invalidate
  | mediaremoved

def Call.acts {β : Type} (g : Geometry) (rwb : Rwb β) (o : Oracle) : Call → List Act
  | read startblock nblocks => (rwbRead g rwb o startblock nblocks).1
  | write startblock nblocks => (rwbWrite g rwb o startblock nblocks).1
  | flush => rwbFlush.1
  | invalidate => (rwbInvalidate g rwb o).1
  | mediaremoved => (rwbMediaremoved g o).1

/-- No wait for a semaphore that is held, no release of one that is not, and none held at the
end. -/
def disciplined : List Sem → List Act → Bool
  | held, [] => held = []
  | held, .wait sem taken :: acts =>
    sem ∉ held && disciplined (if taken then sem :: held else held) acts
  | held, .give sem :: acts => sem ∈ held && disciplined (held.erase sem) acts

/-- The write gets `rhsem`, and then waits for it again. -/
def WaitsAgain {β : Type} (g : Geometry) (rwb : Rwb β) (o : Oracle) (startblock : ℤ) (nblocks : ℕ) :
    Prop :=
  0 < g.rhmaxblocks ∧ g.invalidate = true ∧ o.woken 0 = true ∧ 0 < rwb.rhnblocks ∧
    rwbOverlap rwb.rhblockstart rwb.rhnblocks startblock nblocks = true

section

variable {β : Type} (g : Geometry) (rwb : Rwb β) (o : Oracle)

theorem disciplined_write (startblock : ℤ) (nblocks : ℕ) :
    disciplined [] ((Call.write startblock nblocks).acts g rwb o) = true ↔
      ¬ WaitsAgain g rwb o startblock nblocks := by
  simp only [Call.acts, rwbWrite, rwbInvalidateReadahead, WaitsAgain]
  by_cases hit : rwbOverlap rwb.rhblockstart rwb.rhnblocks startblock nblocks ∧ g.invalidate
  · simp only [if_pos hit, locked, andThen, ok]
    split_ifs <;> simp_all [disciplined]
  · refine iff_of_true ?_ fun again => hit ⟨again.2.2.2.2, again.2.1⟩
    simp only [if_neg hit, locked, andThen, ok]
    split_ifs <;> simp_all [disciplined]

theorem disciplined_other {call : Call}
    (other : ∀ startblock nblocks, call ≠ .write startblock nblocks) :
    disciplined [] (call.acts g rwb o) = true := by
  cases call with
  | write startblock nblocks => exact absurd rfl (other startblock nblocks)
  | read startblock nblocks =>
    simp only [Call.acts, rwbRead, rwbRead_, locked, andThen, ok]
    split_ifs <;> simp_all [disciplined]
  | flush => rfl
  | invalidate =>
    simp only [Call.acts, rwbInvalidate, rwbInvalidateWritebuffer, rwbInvalidateReadahead, locked,
      andThen, ok]
    split_ifs <;> simp_all [disciplined]
  | mediaremoved =>
    simp only [Call.acts, rwbMediaremoved, locked, andThen, ok]
    split_ifs <;> simp_all [disciplined]

/-- Exactly a write waits in vain: one that overlaps the blocks in the read-ahead buffer. -/
theorem disciplined_iff (call : Call) :
    disciplined [] (call.acts g rwb o) = true ↔
      ∀ startblock nblocks, call = .write startblock nblocks → 0 < g.rhmaxblocks →
        g.invalidate = true → o.woken 0 = true → 0 < rwb.rhnblocks →
          rwbOverlap rwb.rhblockstart rwb.rhnblocks startblock nblocks = false := by
  cases call with
  | write startblock nblocks =>
    rw [disciplined_write]
    constructor
    · rintro proper _ _ ⟨⟩ readahead invalidate woken some
      exact eq_false_of_ne_true fun overlap => proper ⟨readahead, invalidate, woken, some, overlap⟩
    · rintro apart ⟨readahead, invalidate, woken, some, overlap⟩
      exact absurd overlap (ne_true_of_eq_false (apart _ _ rfl readahead invalidate woken some))
  | read | flush | invalidate | mediaremoved =>
    exact iff_of_true (disciplined_other g rwb o nofun) nofun

end

/-- Block 3 is in the read-ahead buffer and is written. -/
theorem write_waits_in_vain : ¬ disciplined [] (Call.acts ⟨8, 1, 1, true⟩
    { rwbInitialize (fun _ => ()) (fun _ => ()) (fun _ => ()) with rhnblocks := 1, rhblockstart :=
      3 }
    ⟨fun _ => true, fun _ => true⟩ (.write 3 1)) = true := by
  decide

/-! ## The calls that return -/

section

variable {β : Type} {g : Geometry} {rwb : Rwb β}

/-- The call that an operation of the model is. -/
def Op.call : Op β → Call
  | .write startblock nblocks _ => .write startblock nblocks
  | .read startblock nblocks => .read startblock nblocks
  | .flush => .flush
  | .timeout => .flush

theorem writeReadahead_returns (readahead : 0 < g.rhmaxblocks) (free : rwb.rhsem = 1) {o : Oracle}
    (woken : o.woken 0 = true) (startblock : ℤ) (nblocks : ℕ) :
    (WaitsAgain g rwb o startblock nblocks → writeReadahead g rwb startblock nblocks = none) ∧
    (¬ WaitsAgain g rwb o startblock nblocks →
      ∃ next, writeReadahead g rwb startblock nblocks = some next ∧ next.wrsem = rwb.wrsem) := by
  unfold writeReadahead Rwbuffer.rwbInvalidateReadahead WaitsAgain
  rw [if_pos readahead, takeRhsem_eq free]
  simp only [Option.bind_eq_bind, Option.bind_some, readahead, woken, true_and]
  by_cases overlap : rwbOverlap rwb.rhblockstart rwb.rhnblocks startblock nblocks = true
  · rw [if_pos overlap]
    by_cases invalidate : g.invalidate = true
    · rw [if_pos invalidate]
      by_cases some : 0 < rwb.rhnblocks
      · simp [overlap, invalidate, some, takeRhsem]
      · simp [some, giveRhsem]
    · simp [invalidate, giveRhsem, rwbResetrhbuffer]
  · simp [overlap, giveRhsem]

/-- From a state in which both semaphores are free, a call of the model returns exactly if its
actions are disciplined. -/
theorem step_returns_iff (good : Good g) (inv : Inv g rwb) {op : Op β} (valid : Valid g op)
    {o : Oracle} (woken : o.woken 0 = true) :
    (step g rwb op).isSome ↔ disciplined [] ((Op.call op).acts g rwb o) = true := by
  cases op with
  | write startblock nblocks wrbuffer =>
    obtain ⟨stuck, returns⟩ :=
      writeReadahead_returns good.rh inv.rhsem woken startblock nblocks
    rw [Op.call, disciplined_write, step, Rwbuffer.rwbWrite]
    by_cases again : WaitsAgain g rwb o startblock nblocks
    · simp [stuck again, again]
    · obtain ⟨next, returned, same⟩ := returns again
      refine iff_of_true ?_ again
      simp only [returned, Option.bind_eq_bind, Option.bind_some, if_pos good.wr,
        takeWrsem_eq (same.trans inv.wrsem)]
      split <;> rfl
  | read startblock nblocks =>
    obtain ⟨next, result, -⟩ := rwbRead_spec good inv valid
    exact iff_of_true (by rw [step, result]; rfl) (disciplined_other g rwb o (by simp [Op.call]))
  | flush =>
    refine iff_of_true ?_ (disciplined_other g rwb o (by simp [Op.call]))
    rw [step, rwbFlush_eq inv.wrsem]
    rfl
  | timeout =>
    refine iff_of_true ?_ (disciplined_other g rwb o (by simp [Op.call]))
    rw [step, show rwbWrtimeout rwb = _ from rwbFlush_eq inv.wrsem]
    rfl

end

end NuttxRtos.Rwbuffer.Semaphores
