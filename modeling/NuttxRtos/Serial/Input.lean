import NuttxRtos.Serial.Locks
import NuttxRtos.Serial.Output

/-!
# Serial input

`uart_recvchars` puts received characters into the ring while there is room, and `uart_read` takes them
out and maps them. A call holds `recv.sem` in its loop, and waits for `recvsem` when the ring is empty.
-/

namespace NuttxRtos.Serial

open List Option

open Function (update update_of_ne update_self)

open Locks (Good Sem)

def icrnl : BitVec 32 := 1 <<< 1

def igncr : BitVec 32 := 1 <<< 3

def inlcr : BitVec 32 := 1 <<< 5

variable (iflag : BitVec 32)

/-- The mapping of `INLCR` and `ICRNL`. -/
def mapInput (ch : Byte) : Byte :=
  if ch = nl ∧ iflag &&& inlcr ≠ 0#32 then cr
  else if ch = cr ∧ iflag &&& icrnl ≠ 0#32 then nl
  else ch

/-- The input processing of `uart_read`, which may drop the character. -/
def process (ch : Byte) : Option Byte :=
  if iflag &&& (inlcr ||| igncr ||| icrnl) = 0#32 then some ch
  else
    let ch := mapInput iflag ch
    -- a comparison gives 0 or 1, and `&` goes bit by bit
    if (if ch = cr then 1#32 else 0#32) &&& (iflag &&& igncr) ≠ 0#32 then none else some ch

/-- The character is a carriage return after the mapping and is to be ignored. -/
def Ignored (ch : Byte) : Prop := mapInput iflag ch = cr ∧ iflag &&& igncr ≠ 0#32

instance : DecidablePred (Ignored iflag) := fun _ => inferInstanceAs (Decidable (_ ∧ _))

/-- The input translation as the flags ask for it. -/
def translateInput (chars : List Byte) : List Byte :=
  (chars.filter fun ch => ¬ Ignored iflag ch).map (mapInput iflag)

/-- A call of `uart_read`, with what it has stored. -/
structure Read where
  buflen : ℕ
  got : List Byte
  nonblock : Bool
  deriving DecidableEq

/-- The ring with the semaphores of its readers, the calls that tasks are in, the characters that
went in and out, and the bytes that calls have returned. -/
structure Input (τ : Type) where
  recv : Ring Byte
  sem : Sem τ := {}
  recvsem : Sem τ := { avail := 0 }
  recvwaiting : Bool := false
  call : τ → Option Read := fun _ => none
  received : List Byte := []
  taken : List Byte := []
  returned : List Byte := []

variable {τ : Type}

/-- The loop of `uart_recvchars`; special characters become signals. -/
def recvLoop (special : Byte → Bool) : List Byte → Input τ → Input τ
  | [], s => s
  | ch :: chars, s =>
    if special ch ∨ s.recv.Full then recvLoop special chars s
    else recvLoop special chars { s with recv := s.recv.put ch, received := s.received ++ [ch] }

variable [DecidableEq τ]

/-- `uart_datareceived`, where `w` is woken. -/
def uartDatareceived (s : Input τ) (w : τ) : Input τ :=
  if s.recvwaiting then { s with recvwaiting := false, recvsem := s.recvsem.post w } else s

/-- What `uart_reset_sem` does to the semaphores of the readers; a task that waits for `recvsem` goes on
waiting, and `w` gets `recv.sem`. -/
def uartResetSem (s : Input τ) (w : τ) : Input τ :=
  { s with
    recvsem := if s.recvsem.waiting.isEmpty then { s.recvsem with avail := 0 } else s.recvsem
    sem := s.sem.reset w }

/-- `uart_recvchars` with the characters that the device has. -/
def uartRecvchars (special : Byte → Bool) (chars : List Byte) (w w' : τ) (s : Input τ) : Input τ :=
  let s' := recvLoop special chars s
  let s' := if s'.received = s.received then s' else uartDatareceived s' w
  if chars.any special then uartResetSem s' w' else s'

/-- A call begins, its wait for `recv.sem` fails, it takes a character, it finds the ring empty and
waits, or it ends, with a full buffer, an empty ring or a signal. A post wakes `w`. -/
inductive InputStep (τ : Type) where
  | recvchars (special : Byte → Bool) (chars : List Byte) (w w' : τ)
  | read (t : τ) (buflen : ℕ) (nonblock : Bool)
  | fail (t : τ)
  | take (t : τ) (call : Read)
  | wait (t : τ) (call : Read)
  | finish (t : τ) (call : Read) (w : τ)

/-- A call waits unless it has `O_NONBLOCK`, or has something to return and
`CONFIG_DEV_SERIAL_FULLBLOCKS` is not set. -/
def Read.waits (fullblocks : Bool) (call : Read) : Bool :=
  !call.nonblock && (fullblocks || call.got == [])

/-- The call of the task is in its loop and runs. -/
def Input.Looks (s : Input τ) (t : τ) (call : Read) : Prop :=
  s.call t = some call ∧ t ∈ s.sem.taken ∧ t ∉ s.recvsem.waiting

/-- When a step can be taken. -/
def Input.Enabled (fullblocks : Bool) (s : Input τ) : InputStep τ → Prop
  | .recvchars _ _ w w' => s.recvsem.Wakes w ∧ s.sem.Wakes w'
  | .read t _ _ => s.call t = none
  | .fail t => t ∈ s.sem.waiting
  | .take t call => s.Looks t call ∧ call.got.length < call.buflen ∧ ¬ s.recv.Empty
  | .wait t call => s.Looks t call ∧ call.got.length < call.buflen ∧ s.recv.Empty ∧
      call.waits fullblocks
  | .finish t call w => s.sem.Wakes w ∧ (s.call t = some call ∧ t ∈ s.recvsem.waiting ∨
      s.Looks t call ∧ (call.buflen ≤ call.got.length ∨ s.recv.Empty ∧ ¬ call.waits fullblocks))

/-- What a step does. -/
def Input.step (s : Input τ) : InputStep τ → Input τ
  | .recvchars special chars w w' => uartRecvchars special chars w w' s
  | .read t buflen nonblock =>
    { s with call := update s.call t (some ⟨buflen, [], nonblock⟩), sem := s.sem.wait t }
  | .fail t =>
    { s with
      call := update s.call t none
      sem := { s.sem with waiting := s.sem.waiting.erase t } }
  | .take t call =>
    let got := call.got ++ (process iflag s.recv.first).toList
    { s with
      recv := s.recv.drop
      taken := s.taken ++ [s.recv.first]
      call := update s.call t (some { call with got }) }
  | .wait t _ => { s with recvwaiting := true, recvsem := s.recvsem.wait t }
  | .finish t call w =>
    { s with
      call := update s.call t none
      returned := s.returned ++ call.got
      recvsem := { s.recvsem with waiting := s.recvsem.waiting.erase t }
      sem := Sem.post { s.sem with taken := s.sem.taken.erase t } w }

/-- The runs from an empty ring. -/
inductive InputRun (fullblocks : Bool) (ok : Input τ → InputStep τ → Prop) : Input τ → Prop
  | init (recv : Ring Byte) (empty : recv.Empty) : InputRun fullblocks ok { recv }
  | step {s : Input τ} (run : InputRun fullblocks ok s) (step : InputStep τ)
    (enabled : s.Enabled fullblocks step) (allowed : ok s step) :
    InputRun fullblocks ok (s.step iflag step)

/-- A signal character comes only while no task holds `recv.sem` or waits for it. -/
def Calm (s : Input τ) : InputStep τ → Prop
  | .recvchars special chars _ _ => chars.any special = true → s.sem.taken ++ s.sem.waiting = []
  | _ => True

/-! ## What has been delivered -/

/-- The bytes that the calls of the tasks have stored. -/
def stored (call : τ → Option Read) (tasks : List τ) : List Byte :=
  tasks.flatMap fun t => (call t).elim [] Read.got

/-- The bytes that calls have returned or stored. -/
def Input.delivered (s : Input τ) : List Byte := s.returned ++ stored s.call s.sem.taken

/-- `recv.sem` is a mutex, which a call needs to store anything; what was taken from the ring has
been delivered; and who waits for `recvsem` holds `recv.sem`, while the ring is empty. -/
structure Input.Inv (s : Input τ) : Prop where
  lock : Good s.sem fun t => s.call t ≠ none
  fresh : ∀ t ∈ s.sem.waiting, ∀ call ∈ s.call t, call.got = []
  order : s.received = s.taken ++ s.recv.contents
  mapped : s.delivered = s.taken.map (mapInput iflag)
  asleep : ∀ t ∈ s.recvsem.waiting, t ∈ s.sem.taken ∧ s.recv.Empty ∧ s.recvwaiting = true
  nodup : s.recvsem.waiting.Nodup

variable {iflag} {fullblocks : Bool} {s : Input τ} {t : τ}

section

omit [DecidableEq τ]

/-- A comparison has only bit 0, so that nothing is dropped. -/
theorem process_eq (ch : Byte) : process iflag ch = some (mapInput iflag ch) := by
  have disjoint : 1#32 &&& (iflag &&& igncr) = 0#32 := by
    rw [BitVec.and_comm, BitVec.and_assoc]
    exact BitVec.and_zero
  unfold process
  split
  · next unset =>
    simp only [BitVec.and_or_distrib_left, BitVec.or_eq_zero_iff] at unset
    simp [mapInput, unset]
  · by_cases returns : mapInput iflag ch = cr
    · simp [returns, disjoint]
    · simp [returns]

theorem recvLoop_stores (special : Byte → Bool) (chars : List Byte) (s : Input τ) :
    ∃ recv stored, recvLoop special chars s = { s with recv, received := s.received ++ stored } ∧
      recv.contents = s.recv.contents ++ stored ∧ (stored = [] → recv = s.recv) := by
  induction chars generalizing s with
  | nil => exact ⟨s.recv, [], by simp [recvLoop]⟩
  | cons ch chars ih =>
    rw [recvLoop]
    split
    · exact ih s
    next room =>
    obtain ⟨recv, stored, eq, contents, _⟩ :=
      ih { s with recv := s.recv.put ch, received := s.received ++ [ch] }
    refine ⟨recv, ch :: stored, ?_, ?_, nofun⟩
    · rw [eq, append_assoc]
      rfl
    · rw [contents, Ring.contents_put fun full => room (.inr full), append_assoc]
      rfl

theorem Input.Inv.holder (inv : s.Inv iflag) (has : t ∈ s.sem.taken) : s.sem.taken = [t] := by
  have once := inv.lock.once
  obtain ⟨u, single⟩ : ∃ u, s.sem.taken = [u] := by
    refine length_eq_one_iff.mp ?_
    have := length_pos_of_mem has
    omega
  rw [single] at has ⊢
  rw [mem_singleton.mp has]

theorem Input.Inv.apart (inv : s.Inv iflag) (has : t ∈ s.sem.taken) : t ∉ s.sem.waiting :=
  fun waits => (nodup_append.mp inv.lock.nodup).2.2 t has t waits rfl

theorem Input.Inv.waiter_eq (inv : s.Inv iflag) (has : t ∈ s.sem.taken) (u : τ) :
    u ∈ s.recvsem.waiting → u = t := fun waits =>
  mem_singleton.mp (inv.holder has ▸ (inv.asleep u waits).1)

end

theorem stored_update {call : τ → Option Read} {tasks : List τ} {x : Option Read} (away : t ∉ tasks) :
    stored (update call t x) tasks = stored call tasks := by
  unfold stored
  rw [flatMap_def, flatMap_def, map_congr_left]
  intro u member
  rw [update_of_ne (ne_of_mem_of_not_mem member away)]

section

variable (inv : s.Inv iflag)
include inv

theorem Input.Inv.read (idle : s.call t = none) (buflen : ℕ) (nonblock : Bool) :
    (s.step iflag (.read t buflen nonblock)).Inv iflag := by
  have outside : t ∉ s.sem.taken ++ s.sem.waiting := fun member => inv.lock.place t member idle
  obtain ⟨absent, away⟩ := not_or.mp (mem_append.not.mp outside)
  have lock : Good (s.sem.wait t) fun u => update s.call t (some ⟨buflen, [], nonblock⟩) u ≠ none := by
    refine Good.wait (inv.lock.mono fun u busy => ?_) outside (by simp)
    rwa [update_of_ne]
    rintro rfl
    exact busy idle
  have fresh : ∀ u ∈ s.sem.waiting, ∀ call ∈ update s.call t (some ⟨buflen, [], nonblock⟩) u,
      call.got = [] := by
    intro u member
    rw [update_of_ne (ne_of_mem_of_not_mem member away)]
    exact inv.fresh u member
  have mapped := inv.mapped
  by_cases free : 0 < s.sem.avail
  · simp only [step, Sem.wait, if_pos free] at lock ⊢
    refine ⟨lock, fresh, inv.order, ?_, fun u member => ?_, inv.nodup⟩
    · rw [← mapped, delivered, delivered, ← stored_update absent (x := some ⟨buflen, [], nonblock⟩)]
      simp [stored]
    · exact (inv.asleep u member).imp_left (mem_cons_of_mem t)
  · simp only [step, Sem.wait, if_neg free] at lock ⊢
    refine ⟨lock, fun u member => ?_, inv.order, ?_, inv.asleep, inv.nodup⟩
    · cases mem_cons.mp member with
      | inl here =>
        rw [here]
        intro call calls
        cases (update_self t _ s.call).symm.trans calls
        rfl
      | inr old => exact fresh u old
    · rw [← mapped, delivered, delivered, stored_update absent]

theorem Input.Inv.fail (waits : t ∈ s.sem.waiting) : (s.step iflag (.fail t)).Inv iflag := by
  have away : t ∉ s.sem.taken := fun has => inv.apart has waits
  simp only [step]
  refine ⟨(inv.lock.fail waits).mono fun u ⟨busy, other⟩ => ?_, fun u member => ?_, inv.order, ?_,
    inv.asleep, inv.nodup⟩
  · simpa only [update_of_ne other] using busy
  · have other : u ≠ t := by
      rintro rfl
      exact (nodup_append.mp inv.lock.nodup).2.1.not_mem_erase member
    simp only [update_of_ne other]
    exact inv.fresh u (mem_of_mem_erase member)
  · rw [← inv.mapped, delivered, delivered, stored_update away]

theorem Input.Inv.take {call : Read} (looks : s.Looks t call) (nonempty : ¬ s.recv.Empty) :
    (s.step iflag (.take t call)).Inv iflag := by
  obtain ⟨now, has, _⟩ := looks
  have holder := inv.holder has
  have away := inv.apart has
  have mapped := inv.mapped
  refine ⟨inv.lock.mono fun u busy => ?_, fun u member => ?_, ?_, ?_, ?_, inv.nodup⟩
  · by_cases same : u = t
    · simp [same, step]
    · simpa [step, same] using busy
  · simp only [step, update_of_ne (ne_of_mem_of_not_mem member away)]
    exact inv.fresh u member
  · simp only [step]
    rw [inv.order, Ring.contents_drop nonempty, append_assoc]
    rfl
  · simp only [delivered, stored, holder, flatMap_singleton, now] at mapped
    simp only [step, delivered, stored, holder, flatMap_singleton, update_self, process_eq,
      map_append, ← mapped]
    simp
  · exact fun u member => absurd (inv.asleep u member).2.1 nonempty

theorem Input.Inv.wait (has : t ∈ s.sem.taken) (away : t ∉ s.recvsem.waiting) (empty : s.recv.Empty)
    (call : Read) : (s.step iflag (.wait t call)).Inv iflag := by
  have asleep : ∀ u ∈ s.recvsem.waiting, u ∈ s.sem.taken ∧ s.recv.Empty ∧ true = true :=
    fun u member => ⟨(inv.asleep u member).1, empty, rfl⟩
  by_cases free : 0 < s.recvsem.avail
  · simp only [step, Sem.wait, if_pos free]
    exact ⟨inv.lock, inv.fresh, inv.order, inv.mapped, asleep, inv.nodup⟩
  · simp only [step, Sem.wait, if_neg free]
    refine ⟨inv.lock, inv.fresh, inv.order, inv.mapped, fun u member => ?_,
      nodup_cons.mpr ⟨away, inv.nodup⟩⟩
    cases mem_cons.mp member with
    | inl here => exact ⟨here ▸ has, empty, rfl⟩
    | inr old => exact asleep u old

theorem Input.Inv.finish {call : Read} {w : τ} (now : s.call t = some call) (has : t ∈ s.sem.taken)
    (wakes : s.sem.Wakes w) : (s.step iflag (.finish t call w)).Inv iflag := by
  have holder := inv.holder has
  have away := inv.apart has
  have kept : ∀ u ∈ s.sem.waiting, update s.call t none u = s.call u := fun u member =>
    update_of_ne (ne_of_mem_of_not_mem member away) ..
  have lock : Good (Sem.post { s.sem with taken := s.sem.taken.erase t } w)
      fun u => update s.call t none u ≠ none :=
    (inv.lock.give has wakes).mono fun u ⟨busy, other⟩ => by rwa [update_of_ne other]
  have asleep : ∀ u, u ∉ s.recvsem.waiting.erase t := fun u member =>
    inv.nodup.not_mem_erase (inv.waiter_eq has u (mem_of_mem_erase member) ▸ member)
  have mapped := inv.mapped
  simp only [delivered, stored, holder, flatMap_singleton, now] at mapped
  simp only [step, Sem.post] at lock ⊢
  by_cases next : w ∈ s.sem.waiting
  · simp only [if_pos next] at lock ⊢
    refine ⟨lock, fun u member => ?_, inv.order, ?_, fun u member => absurd member (asleep u),
      inv.nodup.erase t⟩
    · have member := mem_of_mem_erase member
      simp only [kept u member]
      exact inv.fresh u member
    · have got : (s.call w).elim [] Read.got = [] := by
        cases calls : s.call w with
        | none => rfl
        | some call => exact inv.fresh w next call calls
      rw [← mapped]
      simp [delivered, stored, holder, kept w next, got]
  · simp only [if_neg next] at lock ⊢
    refine ⟨lock, fun u member => ?_, inv.order, ?_, fun u member => absurd member (asleep u),
      inv.nodup.erase t⟩
    · simp only [kept u member]
      exact inv.fresh u member
    · rw [← mapped]
      simp [delivered, stored, holder]

/-- When characters were stored, the task that waits is woken. -/
theorem Input.Inv.datareceived {w : τ} (wakes : s.recvsem.Wakes w) :
    (uartDatareceived s w).recvsem.waiting = [] := by
  refine eq_nil_iff_forall_not_mem.mpr fun u member => ?_
  unfold uartDatareceived at member
  split at member
  · have next : w ∈ s.recvsem.waiting := by
      refine wakes fun none => ?_
      simp [Sem.post, none] at member
    simp only [Sem.post, if_pos next] at member
    have same := inv.waiter_eq (inv.asleep w next).1 u (mem_of_mem_erase member)
    exact inv.nodup.not_mem_erase (same ▸ member)
  · next idle => exact idle (inv.asleep u member).2.2

theorem Input.Inv.resetSem (unused : s.sem.taken ++ s.sem.waiting = []) (w : τ) :
    (uartResetSem s w).Inv iflag := by
  have nobody : s.recvsem.waiting = [] := by
    refine eq_nil_iff_forall_not_mem.mpr fun u member => ?_
    have has := (inv.asleep u member).1
    rw [(append_eq_nil_iff.mp unused).1] at has
    cases has
  simp only [uartResetSem, nobody, isEmpty_nil, if_true, inv.lock.reset unused]
  exact { inv with asleep := by simp, nodup := by simp }

theorem Input.Inv.recvchars {special : Byte → Bool} {chars : List Byte} {w w' : τ}
    (wakes : s.recvsem.Wakes w)
    (calm : chars.any special = true → s.sem.taken ++ s.sem.waiting = []) :
    (uartRecvchars special chars w w' s).Inv iflag := by
  obtain ⟨recv, new, loop, contents, same⟩ := recvLoop_stores special chars s
  have order : s.received ++ new = s.taken ++ recv.contents := by
    rw [contents, inv.order, append_assoc]
  obtain ⟨s', inv', sem, eq⟩ : ∃ s' : Input τ, s'.Inv iflag ∧ s'.sem = s.sem ∧
      (if (recvLoop special chars s).received = s.received then recvLoop special chars s
        else uartDatareceived (recvLoop special chars s) w) = s' := by
    by_cases nothing : new = []
    · have unchanged : recvLoop special chars s = s := by
        rw [loop, same nothing, nothing, append_nil]
      exact ⟨s, inv, rfl, by rw [unchanged, if_pos rfl]⟩
    have awake := inv.datareceived wakes
    rw [loop, if_neg (by simpa using nothing)]
    unfold uartDatareceived at awake ⊢
    by_cases waiting : s.recvwaiting = true
    · simp only [if_pos waiting] at awake
      refine ⟨_, ?_, ?_, if_pos waiting⟩
      · exact ⟨inv.lock, inv.fresh, order, inv.mapped, by simp [awake], by simp [awake]⟩
      · rfl
    · rw [if_neg waiting] at awake
      refine ⟨_, ?_, ?_, if_neg waiting⟩
      · exact ⟨inv.lock, inv.fresh, order, inv.mapped, by simp [awake], by simp [awake]⟩
      · rfl
  simp only [uartRecvchars, eq]
  split
  · next signals => exact inv'.resetSem (sem ▸ calm signals) w'
  · exact inv'

theorem Input.Inv.step {step : InputStep τ} (enabled : s.Enabled fullblocks step)
    (calm : Calm s step) : (s.step iflag step).Inv iflag := by
  cases step with
  | recvchars special chars w w' => exact inv.recvchars enabled.1 calm
  | read t buflen nonblock => exact inv.read enabled buflen nonblock
  | fail t => exact inv.fail enabled
  | take t call => exact inv.take enabled.1 enabled.2.2
  | wait t call => exact inv.wait enabled.1.2.1 enabled.1.2.2 enabled.2.2.1 call
  | finish t call w =>
    obtain ⟨wakes, ends⟩ := enabled
    rcases ends with ⟨now, waits⟩ | ⟨looks, _⟩
    · exact inv.finish now (inv.asleep t waits).1 wakes
    · exact inv.finish looks.1 looks.2.1 wakes

end

theorem InputRun.inv (run : InputRun iflag fullblocks Calm s) : s.Inv iflag := by
  induction run with
  | init recv empty =>
    exact ⟨⟨rfl, by simp, by simp, by simp⟩, by simp, by simp [Ring.contents_empty empty], rfl,
      by simp, by simp⟩
  | step run step enabled calm ih => exact ih.step enabled calm

/-- In runs in which no signal character comes while a task holds `recv.sem` or waits for it, the
reads deliver the translation of what was received as long as they took no character that `IGNCR`
asks to ignore, and nothing else, and wait only while the ring is empty. -/
theorem input_delivered (run : InputRun iflag fullblocks Calm s) :
    (s.delivered ++ translateInput iflag s.recv.contents = translateInput iflag s.received ↔
      ∀ ch ∈ s.taken, ¬ Ignored iflag ch) ∧
    (∀ byte ∈ s.delivered, ∃ ch ∈ s.received, byte = mapInput iflag ch) ∧
    ∀ t ∈ s.recvsem.waiting, s.recv.Empty := by
  have inv := run.inv
  refine ⟨?_, ?_, fun t waits => (inv.asleep t waits).2.1⟩
  · rw [inv.order, inv.mapped, translateInput, translateInput, filter_append, map_append,
      append_cancel_right_eq]
    constructor
    · intro same
      have length := congrArg List.length same
      rw [length_map, length_map, eq_comm, length_filter_eq_length_iff] at length
      simpa using length
    · intro kept
      rw [filter_eq_self.mpr]
      simpa using kept
  · intro byte mem
    rw [inv.mapped] at mem
    obtain ⟨ch, took, rfl⟩ := mem_map.mp mem
    exact ⟨ch, inv.order ▸ mem_append_left _ took, rfl⟩

/-- One task waits for the character while another waits for `recv.sem`. -/
theorem input_delivered_return : ∃ s : Input Bool, s.sem.waiting = [true] ∧ s.delivered = [nl] ∧
    s.delivered ++ translateInput icrnl s.recv.contents = translateInput icrnl s.received := by
  have start : InputRun icrnl false Calm ({ recv := ringOf 3 (by decide) } : Input Bool) :=
    .init _ rfl
  have first := start.step (.read false 1 false) rfl trivial
  have waits := first.step (.wait false ⟨1, [], false⟩) ⟨⟨rfl, .head _, by decide⟩, by decide⟩ trivial
  have second := waits.step (.read true 1 false) rfl trivial
  have woken := second.step (.recvchars (fun _ => false) [cr] false true)
    ⟨fun _ => .head _, fun _ => .head _⟩ nofun
  have got := woken.step (.take false ⟨1, [], false⟩) ⟨⟨rfl, .head _, by decide⟩, by decide⟩ trivial
  exact ⟨_, rfl, rfl, (input_delivered got).1.mpr (by decide)⟩

/-- A carriage return that is to be ignored is returned. And a signal character lets a second task
read: both wait, and one goes on waiting with a character in the ring. -/
theorem return_not_ignored :
    (∃ s : Input Bool, InputRun igncr false Calm s ∧ (∀ t, s.call t = none) ∧ s.received = [cr] ∧
      s.delivered ++ translateInput igncr s.recv.contents = [cr] ∧
      translateInput igncr s.received = []) ∧
    ∃ s : Input Bool, InputRun 0 false (fun _ _ => True) s ∧ true ∈ s.recvsem.waiting ∧
      s.recv.contents = [nl] := by
  constructor
  · have start : InputRun igncr false Calm ({ recv := ringOf 3 (by decide) } : Input Bool) :=
      .init _ rfl
    have stored := start.step (.recvchars (fun _ => false) [cr] false false)
      ⟨fun some => absurd rfl some, fun some => absurd rfl some⟩ nofun
    have called := stored.step (.read false 1 false) rfl trivial
    have got := called.step (.take false ⟨1, [], false⟩) ⟨⟨rfl, .head _, by decide⟩, by decide⟩ trivial
    have done := got.step (.finish false ⟨1, [cr], false⟩ false)
      ⟨fun some => absurd rfl some, .inr ⟨⟨rfl, .head _, by decide⟩, by decide⟩⟩ trivial
    exact ⟨_, done, by decide, rfl, by decide, by decide⟩
  have start : InputRun 0 false (fun _ _ => True) ({ recv := ringOf 3 (by decide) } : Input Bool) :=
    .init _ rfl
  have first := start.step (.read false 1 false) rfl trivial
  have waits := first.step (.wait false ⟨1, [], false⟩) ⟨⟨rfl, .head _, by decide⟩, by decide⟩ trivial
  have reset := waits.step (.recvchars (fun _ => true) [3] false false)
    ⟨fun _ => .head _, fun some => absurd rfl some⟩ trivial
  have second := (reset.step (.read true 1 false) rfl trivial).step (.wait true ⟨1, [], false⟩)
    ⟨⟨rfl, .head _, by decide⟩, by decide⟩ trivial
  have woken := second.step (.recvchars (fun _ => false) [nl] false false)
    ⟨fun _ => by decide, fun some => absurd rfl some⟩ trivial
  exact ⟨_, woken, by decide, by decide⟩

end NuttxRtos.Serial
