import Mathlib.Algebra.Order.Ring.Int
import Mathlib.Data.List.Count

/-!
# Pipes

A pipe is a ring of bytes with counts of the files open for reading and for writing. What a task
does while it has `d_bfsem` is one step. A task that waits on `d_rdsem` or `d_wrsem` has given
`d_bfsem` back with the scheduler locked; it is woken together with all others that wait there.
-/

namespace NuttxRtos.Pipes

open Function List

variable {τ δ β : Type}

/-- `struct pipe_dev_s`; the flag says whether `d_buffer` is allocated. -/
structure Dev (β : Type) where
  wrndx : ℕ
  rdndx : ℕ
  nwriters : ℕ
  nreaders : ℕ
  allocated : Bool
  buffer : ℕ → β

structure Config where
  bufsize : ℕ
  policy1 : Bool

/-- `O_RDOK` and `O_WROK` of an open file. -/
structure Mode where
  rd : Bool
  wr : Bool
  deriving DecidableEq

def Config.next (c : Config) (i : ℕ) : ℕ := if c.bufsize ≤ i + 1 then 0 else i + 1

/-- An increment and a decrement of `uint8_t`. -/
def inc8 (n : ℕ) : ℕ := if n = 255 then 0 else n + 1

def dec8 (n : ℕ) : ℕ := if n = 0 then 255 else n - 1

def readLoop (c : Config) : ℕ → Dev β → List β × Dev β
  | 0, dev => ([], dev)
  | len + 1, dev =>
    if dev.wrndx ≠ dev.rdndx then
      let (bytes, dev') := readLoop c len { dev with rdndx := c.next dev.rdndx }
      (dev.buffer dev.rdndx :: bytes, dev')
    else ([], dev)

/-- The copy loop of `pipecommon_write`: the number of bytes copied, and the bytes that are left
when the ring is full. -/
def writeLoop (c : Config) : List β → Dev β → ℕ × List β × Dev β
  | [], dev => (0, [], dev)
  | byte :: data, dev =>
    if c.next dev.wrndx ≠ dev.rdndx then
      let (n, rest, dev') := writeLoop c data
        { dev with buffer := update dev.buffer dev.wrndx byte, wrndx := c.next dev.wrndx }
      (n + 1, rest, dev')
    else (0, byte :: data, dev)

/-- Where a task is: in no call, in `pipecommon_open` on `d_rdsem`, or in `pipecommon_read` or
`pipecommon_write`, on `d_bfsem` or on its own semaphore. -/
inductive Pc (β : Type) where
  | idle
  | opening
  | reading (nonblock : Bool) (len : ℕ)
  | readWait (len : ℕ)
  | writing (nonblock : Bool) (nwritten : ℕ) (data : List β)
  | writeWait (nwritten : ℕ) (data : List β)

def wakeReaders (pc : τ → Pc β) : τ → Pc β := fun t =>
  match pc t with
  | .opening => .idle
  | .readWait len => .reading false len
  | place => place

def wakeWriters (pc : τ → Pc β) : τ → Pc β := fun t =>
  match pc t with
  | .writeWait nwritten data => .writing false nwritten data
  | place => place

structure State (τ δ β : Type) where
  dev : Dev β
  pc : τ → Pc β
  files : List (δ × Mode)

section

variable [DecidableEq τ] [DecidableEq δ] (c : Config) (s : State τ δ β)

/-- `pipecommon_open`. The inode has a reference for each open file, one for this call and others
that come and go. -/
def pipecommonOpen (t : τ) (d : δ) (mode : Mode) (others : ℕ) (memory : Bool) : State τ δ β :=
  let crefs := s.files.length + 1 + others
  if crefs = 1 ∧ ¬ s.dev.allocated ∧ ¬ memory then s
  else
    let dev : Dev β := { s.dev with
      allocated := s.dev.allocated || crefs = 1
      nwriters := if mode.wr then inc8 s.dev.nwriters else s.dev.nwriters
      nreaders := if mode.rd then inc8 s.dev.nreaders else s.dev.nreaders }
    let pc := if mode.wr ∧ dev.nwriters = 1 then wakeReaders s.pc else s.pc
    let waits := mode.rd ∧ ¬ mode.wr ∧ dev.nwriters < 1 ∧ dev.wrndx = dev.rdndx
    { dev
      pc := if waits then update pc t .opening else pc
      files := (d, mode) :: s.files }

def pipecommonClose (d : δ) (mode : Mode) (others : ℕ) : State τ δ β :=
  let files := s.files.erase (d, mode)
  if 1 < s.files.length + others then
    let dev : Dev β := { s.dev with
      nwriters := if mode.wr then dec8 s.dev.nwriters else s.dev.nwriters
      nreaders := if mode.rd then dec8 s.dev.nreaders else s.dev.nreaders }
    { dev
      pc := if mode.wr ∧ dev.nwriters = 0 then wakeReaders s.pc else s.pc
      files }
  else if ¬ c.policy1 ∨ s.dev.wrndx = s.dev.rdndx then
    { s with dev := ⟨0, 0, 0, 0, false, s.dev.buffer⟩, files }
  else { s with files }

/-- `pipecommon_read` from where it has `d_bfsem`. -/
def pipecommonRead (t : τ) (nonblock : Bool) (len : ℕ) : State τ δ β :=
  if s.dev.wrndx = s.dev.rdndx then
    let waits := ¬ nonblock ∧ s.dev.nwriters ≠ 0
    { s with pc := update s.pc t (if waits then .readWait len else .idle) }
  else
    { s with
      dev := (readLoop c len s.dev).2
      pc := wakeWriters (update s.pc t .idle) }

/-- `pipecommon_write` from where it has `d_bfsem`. -/
def pipecommonWrite (t : τ) (nonblock : Bool) (nwritten : ℕ) (data : List β) : State τ δ β :=
  let (n, rest, dev) := writeLoop c data s.dev
  let waits := rest ≠ [] ∧ ¬ nonblock
  { s with
    dev
    pc := update (if 0 < n then wakeReaders s.pc else s.pc) t
      (if waits then .writeWait (nwritten + n) rest else .idle) }

/-! ## Runs -/

inductive Action (τ δ β : Type) where
  | open (t : τ) (d : δ) (mode : Mode) (others : ℕ) (memory : Bool)
  | close (d : δ) (mode : Mode) (others : ℕ)
  | closeCancelled (d : δ) (mode : Mode)
  | read (t : τ) (nonblock : Bool) (len : ℕ)
  | write (t : τ) (nonblock : Bool) (data : List β)
  | go (t : τ)
  | interrupt (t : τ)

/-- The task has `d_bfsem` again and goes on. -/
def goOn (t : τ) : State τ δ β :=
  match s.pc t with
  | .reading nonblock len => pipecommonRead c s t nonblock len
  | .writing nonblock nwritten data => pipecommonWrite c s t nonblock nwritten data
  | _ => s

/-- A call of a task that is in another call does nothing, nor does a close of a file that is not
open. After a close that is cancelled while it waits for `d_bfsem` the file is gone. An open that is
interrupted leaves the file to be closed. -/
def step (s : State τ δ β) : Action τ δ β → State τ δ β
  | .open t d mode others memory =>
    match s.pc t with
    | .idle => pipecommonOpen s t d mode others memory
    | _ => s
  | .close d mode others => if (d, mode) ∈ s.files then pipecommonClose c s d mode others else s
  | .closeCancelled d mode => { s with files := s.files.erase (d, mode) }
  | .read t nonblock len =>
    match s.pc t with
    | .idle => if len = 0 then s else { s with pc := update s.pc t (.reading nonblock len) }
    | _ => s
  | .write t nonblock data =>
    match s.pc t with
    | .idle =>
      if data = [] ∨ s.dev.nreaders = 0 then s
      else { s with pc := update s.pc t (.writing nonblock 0 data) }
    | _ => s
  | .go t => goOn c s t
  | .interrupt t => { s with pc := update s.pc t .idle }

def Config.full (dev : Dev β) : Prop := c.next dev.wrndx = dev.rdndx

/-- The ring has room for `n` bytes. -/
def Config.Room (dev : Dev β) (n : ℕ) : Prop := ∀ k < n, c.next^[k] (c.next dev.wrndx) ≠ dev.rdndx

/-- The counts are those of the open files, and nobody waits in vain. -/
structure Served : Prop where
  readers : s.dev.nreaders = s.files.countP (·.2.rd)
  writers : s.dev.nwriters = s.files.countP (·.2.wr)
  reading : ∀ t len, s.pc t = .readWait len → s.dev.wrndx = s.dev.rdndx ∧ 0 < s.dev.nwriters
  writing : ∀ t nwritten data, s.pc t = .writeWait nwritten data → c.full s.dev ∧ 0 < s.dev.nreaders

def WriteWaits : Prop := ∃ t nwritten data, s.pc t = .writeWait nwritten data

/-- The counts do not overflow, and no close is cancelled. The last reader leaves no waiting writer
behind, and without readers there is room for what a writer still has to write. The last file is
closed when the ring is empty or is dropped, and nobody waits. -/
def Kept : Action τ δ β → Prop
  | .open _ _ mode _ _ => (mode.wr → s.dev.nwriters < 255) ∧ (mode.rd → s.dev.nreaders < 255)
  | .close _ mode others =>
    if 1 < s.files.length + others then mode.rd → s.dev.nreaders = 1 → ¬ WriteWaits s
    else (¬ c.policy1 ∨ s.dev.wrndx = s.dev.rdndx) ∧ ¬ WriteWaits s ∧
      ∀ t len, s.pc t ≠ .readWait len
  | .closeCancelled _ _ => False
  | .go t => ∀ nwritten data, s.pc t = .writing false nwritten data →
      c.Room s.dev data.length ∨ 0 < s.dev.nreaders
  | _ => True

inductive Runs (permitted : State τ δ β → Action τ δ β → Prop) : State τ δ β → Prop
  | start (buffer : ℕ → β) :
      Runs permitted ⟨⟨0, 0, 0, 0, false, buffer⟩, fun _ => .idle, []⟩
  | step {s : State τ δ β} {a : Action τ δ β} (before : Runs permitted s) (ok : permitted s a) :
      Runs permitted (step c s a)

end

/-! ## One step -/

theorem inc8_if {b : Bool} {n : ℕ} (room : b → n < 255) :
    (if b then inc8 n else n) = n + if b then 1 else 0 := by
  cases b
  · rfl
  · exact if_neg (Nat.ne_of_lt (room rfl))

theorem dec8_if {b : Bool} {n m : ℕ} (count : n = m + if b then 1 else 0) :
    (if b then dec8 n else n) = m := by
  subst count
  cases b <;> rfl

structure Fewer (pc' pc : τ → Pc β) : Prop where
  reading : ∀ {t len}, pc' t = .readWait len → pc t = .readWait len
  writing : ∀ {t nwritten data}, pc' t = .writeWait nwritten data → pc t = .writeWait nwritten data

variable (pc : τ → Pc β)

theorem Fewer.refl : Fewer pc pc := ⟨id, id⟩

theorem Fewer.trans {first second third : τ → Pc β} (left : Fewer first second)
    (right : Fewer second third) : Fewer first third :=
  ⟨fun waits => right.reading (left.reading waits), fun waits => right.writing (left.writing waits)⟩

theorem Fewer.ite {p : Prop} [Decidable p] {yes no pc : τ → Pc β} (left : Fewer yes pc)
    (right : Fewer no pc) : Fewer (if p then yes else no) pc := by
  split
  · exact left
  · exact right

theorem wakeReaders_ne (t : τ) (len : ℕ) : wakeReaders pc t ≠ .readWait len := by
  unfold wakeReaders
  split <;> simp_all

theorem wakeWriters_ne (t : τ) (nwritten : ℕ) (data : List β) :
    wakeWriters pc t ≠ .writeWait nwritten data := by
  unfold wakeWriters
  split <;> simp_all

theorem fewer_wakeReaders : Fewer (wakeReaders pc) pc := by
  refine ⟨fun waits => (wakeReaders_ne _ _ _ waits).elim, fun waits => ?_⟩
  unfold wakeReaders at waits
  split at waits <;> simp_all

theorem fewer_wakeWriters : Fewer (wakeWriters pc) pc := by
  refine ⟨fun waits => ?_, fun waits => (wakeWriters_ne _ _ _ _ waits).elim⟩
  unfold wakeWriters at waits
  split at waits <;> simp_all

theorem update_cases [DecidableEq τ] {pc : τ → Pc β} {t u : τ} {place wait : Pc β}
    (here : update pc t place u = wait) : place = wait ∨ pc u = wait := by
  by_cases same : u = t
  · subst same
    exact .inl (update_self u place pc ▸ here)
  · exact .inr (update_of_ne same place pc ▸ here)

theorem fewer_update [DecidableEq τ] (t : τ) {place : Pc β} (reading : ∀ len, place ≠ .readWait len)
    (writing : ∀ nwritten data, place ≠ .writeWait nwritten data) : Fewer (update pc t place) pc :=
  ⟨fun waits => (update_cases waits).resolve_left (reading _),
    fun waits => (update_cases waits).resolve_left (writing _ _)⟩

/-- Either nothing is written, because the ring is full, or something is; when bytes are left, the
ring is full. -/
theorem writeLoop_spec (c : Config) (data : List β) (dev : Dev β) :
    (writeLoop c data dev).2.2.nreaders = dev.nreaders ∧
      (writeLoop c data dev).2.2.nwriters = dev.nwriters ∧
      ((writeLoop c data dev).2.1 ≠ [] → c.full (writeLoop c data dev).2.2) ∧
      ((writeLoop c data dev).1 = 0 → (writeLoop c data dev).2.2 = dev) ∧
      (0 < (writeLoop c data dev).1 → ¬ c.full dev) := by
  fun_induction writeLoop c data dev <;> simp_all [Config.full]

variable {c : Config} {s : State τ δ β}

theorem writeLoop_room (data : List β) (dev : Dev β) (room : c.Room dev data.length) :
    (writeLoop c data dev).2.1 = [] := by
  fun_induction writeLoop c data dev with
  | case1 dev => rfl
  | case2 dev byte data more n rest dev' loop ih =>
    rw [loop] at ih
    exact ih fun k below => room (k + 1) (Nat.succ_lt_succ below)
  | case3 dev byte data full => exact absurd (room 0 (Nat.zero_lt_succ _)) full

section

variable (served : Served c s)
include served

theorem Served.fewer {pc : τ → Pc β} (fewer : Fewer pc s.pc) : Served c { s with pc } :=
  ⟨served.readers, served.writers, fun t len waits => served.reading t len (fewer.reading waits),
    fun t nwritten data waits => served.writing t nwritten data (fewer.writing waits)⟩

variable [DecidableEq τ]

theorem Served.open (t : τ) (d : δ) (mode : Mode) (others : ℕ) (memory : Bool)
    (kept : Kept c s (.open t d mode others memory)) :
    Served c (pipecommonOpen s t d mode others memory) := by
  obtain ⟨room_wr, room_rd⟩ := kept
  have readers := served.readers
  have writers := served.writers
  unfold pipecommonOpen
  dsimp only
  split
  · exact served
  have fewer : ∀ (p q : Prop) [Decidable p] [Decidable q],
      Fewer (if p then update (if q then wakeReaders s.pc else s.pc) t .opening
        else if q then wakeReaders s.pc else s.pc) s.pc := fun p q _ _ =>
    have woken : Fewer (if q then wakeReaders s.pc else s.pc) s.pc :=
      (fewer_wakeReaders s.pc).ite (.refl s.pc)
    ((fewer_update _ t (by simp) (by simp)).trans woken).ite woken
  refine ⟨?_, ?_, fun u len waits => ?_, fun u nwritten data waits => ?_⟩
  · rw [countP_cons, ← readers]
    exact inc8_if room_rd
  · rw [countP_cons, ← writers]
    exact inc8_if room_wr
  · obtain ⟨empty, some⟩ := served.reading u len ((fewer _ _).reading waits)
    exact ⟨empty, inc8_if room_wr ▸ Nat.add_pos_left some _⟩
  · obtain ⟨full, some⟩ := served.writing u nwritten data ((fewer _ _).writing waits)
    exact ⟨full, inc8_if room_rd ▸ Nat.add_pos_left some _⟩

theorem Served.read (t : τ) (nonblock : Bool) (len : ℕ) :
    Served c (pipecommonRead c s t nonblock len) := by
  unfold pipecommonRead
  dsimp only
  split
  · next empty =>
    split
    · next waits =>
      refine ⟨served.readers, served.writers, fun u n wait => ⟨empty, Nat.pos_of_ne_zero waits.2⟩,
        fun u nwritten data wait => served.writing u nwritten data ?_⟩
      exact (update_cases wait).resolve_left (by simp)
    · exact served.fewer (fewer_update _ t (by simp) (by simp))
  next data =>
  obtain ⟨readers, writers⟩ : (readLoop c len s.dev).2.nreaders = s.dev.nreaders ∧
      (readLoop c len s.dev).2.nwriters = s.dev.nwriters := by
    fun_induction readLoop c len s.dev <;> simp_all
  have fewer := (fewer_wakeWriters _).trans
    (fewer_update s.pc t (by simp) (by simp) : Fewer (update s.pc t .idle) s.pc)
  refine ⟨readers.trans served.readers, writers.trans served.writers, fun u n wait => ?_,
    fun u nwritten data wait => (wakeWriters_ne _ _ _ _ wait).elim⟩
  exact absurd (served.reading u n (fewer.reading wait)).1 data

theorem Served.write (t : τ) (nonblock : Bool) (nwritten : ℕ) (data : List β)
    (reader : nonblock = false → c.Room s.dev data.length ∨ 0 < s.dev.nreaders) :
    Served c (pipecommonWrite c s t nonblock nwritten data) := by
  obtain ⟨readers, writers, full, same, room⟩ := writeLoop_spec c data s.dev
  unfold pipecommonWrite
  dsimp only
  refine ⟨readers.trans served.readers, writers.trans served.writers, fun u n wait => ?_,
    fun u n rest wait => ?_⟩
  · have wait := (update_cases wait).resolve_left (by split <;> simp)
    split at wait
    · exact (wakeReaders_ne _ _ _ wait).elim
    next nothing =>
    rw [same (by omega)]
    exact served.reading u n wait
  rcases update_cases wait with here | there
  · split at here
    · next waits =>
      have some := (reader (by simpa using waits.2)).resolve_left fun room =>
        waits.1 (writeLoop_room data s.dev room)
      exact ⟨full waits.1, readers ▸ some⟩
    · cases here
  split at there
  · next some =>
    exact absurd (served.writing u n rest ((fewer_wakeReaders _).writing there)).1 (room some)
  next nothing =>
  rw [same (by omega)]
  exact served.writing u n rest there

variable [DecidableEq δ]

omit [DecidableEq τ] in
theorem Served.close (d : δ) (mode : Mode) (others : ℕ)
    (kept : Kept c s (.close d mode others)) (member : (d, mode) ∈ s.files) :
    Served c (pipecommonClose c s d mode others) := by
  obtain ⟨readers, writers, reading, writing⟩ := served
  have perm := perm_cons_erase member
  rw [perm.countP_eq, countP_cons] at readers writers
  have fewer : ∀ (p : Prop) [Decidable p], Fewer (if p then wakeReaders s.pc else s.pc) s.pc :=
    fun p _ => (fewer_wakeReaders s.pc).ite (.refl s.pc)
  unfold pipecommonClose
  simp only [Kept] at kept
  split
  · next more =>
    rw [if_pos more] at kept
    refine ⟨?_, ?_, fun u len waits => ?_, fun u nwritten data waits => ?_⟩
    · exact dec8_if readers
    · exact dec8_if writers
    · obtain ⟨empty, some⟩ := reading u len ((fewer _).reading waits)
      refine ⟨empty, Nat.pos_of_ne_zero fun zero => ?_⟩
      by_cases wr : mode.wr = true
      · dsimp only at waits zero
        rw [if_pos (And.intro wr zero)] at waits
        exact wakeReaders_ne _ _ _ waits
      · exact Nat.ne_of_gt some ((if_neg wr).symm.trans zero)
    have old := (fewer _).writing waits
    obtain ⟨full, some⟩ := writing u nwritten data old
    refine ⟨full, Nat.pos_of_ne_zero fun zero => ?_⟩
    by_cases rd : mode.rd = true
    · refine kept rd ?_ ⟨u, nwritten, data, old⟩
      rw [readers, ← dec8_if readers, if_pos rd]
      exact congrArg₂ (· + ·) ((if_pos rd).symm.trans zero) (if_pos rd)
    · exact Nat.ne_of_gt some ((if_neg rd).symm.trans zero)
  next last =>
  rw [if_neg last] at kept
  have none : s.files.erase (d, mode) = [] := by
    have := perm.length_eq
    rw [length_cons] at this
    exact eq_nil_of_length_eq_zero (by omega)
  rw [if_pos kept.1, none]
  refine ⟨rfl, rfl, fun u len waits => absurd waits (kept.2.2 u len), ?_⟩
  exact fun u nwritten data waits => absurd ⟨u, nwritten, data, waits⟩ kept.2.1

theorem Served.step {a : Action τ δ β} (kept : Kept c s a) : Served c (step c s a) := by
  cases a with
  | «open» t d mode others memory =>
    rw [Pipes.step]
    split
    · exact served.open t d mode others memory kept
    · exact served
  | close d mode others =>
    rw [Pipes.step]
    split
    · next member => exact served.close d mode others kept member
    · exact served
  | closeCancelled d mode => exact kept.elim
  | read t nonblock len | write t nonblock data =>
    rw [Pipes.step]
    split
    · split
      · exact served
      · exact served.fewer (fewer_update _ t (by simp) (by simp))
    · exact served
  | go t =>
    rw [Pipes.step]
    unfold goOn
    split
    · exact served.read t ..
    · next place => exact served.write t _ _ _ fun waits => kept _ _ (waits ▸ place)
    · exact served
  | interrupt t => exact served.fewer (fewer_update _ t (by simp) (by simp))

end

variable [DecidableEq τ] [DecidableEq δ]

theorem run_served (c : Config) (s : State τ δ β) (run : Runs c (Kept c) s) : Served c s := by
  induction run with
  | start buffer => exact ⟨rfl, rfl, by simp, by simp⟩
  | step before kept ih => exact ih.step kept

def twoBytes : Config := ⟨3, false⟩

def reader : Mode := ⟨true, false⟩

def writer : Mode := ⟨false, true⟩

/-- A reader waits for the writer. -/
theorem run_served_reader :
    ∃ s : State Bool Bool ℕ, s.pc false = .readWait 5 ∧ Served twoBytes s := by
  have run : Runs twoBytes (Kept twoBytes) (_ : State Bool Bool ℕ) := .start fun _ => 0
  have run := run.step (a := .open true true writer 0 true)
    ⟨fun _ => by decide, fun _ => by decide⟩
  have run := run.step (a := .open false false reader 0 true)
    ⟨fun _ => by decide, fun _ => by decide⟩
  have run := run.step (a := .read false false 5) trivial
  have run := run.step (a := .go false) (by rintro _ _ ⟨⟩)
  exact ⟨_, rfl, run_served _ _ run⟩

/-- The reader closes its end while the writer waits for room. -/
theorem close_strands_writer : ∃ s : State Bool Bool ℕ,
    Runs twoBytes (fun _ _ => True) s ∧ ¬ Served twoBytes s := by
  have run : Runs twoBytes (fun _ _ => True) (_ : State Bool Bool ℕ) := .start fun _ => 0
  have run := run.step (a := .open true true writer 0 true) trivial
  have run := run.step (a := .open false false reader 0 true) trivial
  have run := run.step (a := .write true false [1, 2, 3]) trivial
  have run := run.step (a := .go true) trivial
  have run := run.step (a := .close false reader 0) trivial
  refine ⟨_, run, fun served => ?_⟩
  exact absurd (served.writing true 2 [3] rfl).2 (by decide)

end NuttxRtos.Pipes
