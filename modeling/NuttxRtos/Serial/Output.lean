import NuttxRtos.Lib.Ring

/-!
# Serial output

`uart_write` puts each byte into the ring as one or two characters while `uart_xmitchars` takes
characters out. One call at a time is in the loop, since it holds `xmit.sem`.
-/

namespace NuttxRtos.Serial

open List Option

abbrev Byte := BitVec 8

def cr : Byte := 13

def nl : Byte := 10

/-- The flags of `tc_oflag`, or `isconsole` without `CONFIG_SERIAL_TERMIOS`. -/
inductive OutputMode where
  | termios (opost ocrnl onlcr onlret : Bool)
  | plain (isconsole : Bool)

/-- The byte that is put for a byte of the caller. -/
def OutputMode.map : OutputMode → Byte → Byte
  | .termios opost ocrnl _ _, ch => if opost ∧ ch = cr ∧ ocrnl then nl else ch
  | .plain _, ch => ch

/-- A carriage return is put before the byte. -/
def OutputMode.returns : OutputMode → Byte → Bool
  | .termios opost _ onlcr onlret, ch => opost && ch == nl && (onlcr || onlret)
  | .plain isconsole, ch => isconsole && ch == nl

def OutputMode.translate (mode : OutputMode) (ch : Byte) : List Byte :=
  if mode.returns (mode.map ch) then [cr, mode.map ch] else [mode.map ch]

/-- A call in the loop of `uart_write`: the bytes behind it and before it, and whether the carriage
return of the next byte is in the ring. -/
structure Write where
  done : List Byte
  rest : List Byte
  returned : Bool

/-- A returned call: its data, and the count or, for an error, nothing. -/
abbrev Returned := List Byte × Option ℕ

structure Output where
  xmit : Ring Byte
  sent : List Byte
  call : Option Write
  calls : List Returned

/-- The loop of `uart_xmitchars`, while the hardware takes that many characters. -/
def xmitLoop : ℕ → Output → Output
  | 0, s => s
  | ready + 1, s =>
    if s.xmit.Empty then s
    else xmitLoop ready { s with sent := s.sent ++ [s.xmit.first], xmit := s.xmit.drop }

inductive OutputStep where
  | xmitchars (ready : ℕ)
  | write (data : List Byte)
  /-- The wait for `xmit.sem` fails. -/
  | refuse (data : List Byte)
  | put
  /-- `uart_putxmitchar` finds the ring full and returns `-EAGAIN`, or waits and is interrupted before
  `uart_xmitchars` has made room and woken it. -/
  | fail
  | finish

def Output.fail (s : Output) (call : Write) : Output :=
  { s with
    call := none
    calls := s.calls ++ [(call.done ++ call.rest,
      if call.done = [] then none else some call.done.length)] }

def Output.put (mode : OutputMode) (s : Output) (call : Write) : Option Output :=
  match call.rest with
  | [] => none
  | ch :: rest =>
    if mode.returns (mode.map ch) ∧ ¬ call.returned then
      some { s with xmit := s.xmit.put cr, call := some { call with returned := true } }
    else
      some { s with
        xmit := s.xmit.put (mode.map ch)
        call := some { call with done := call.done ++ [ch], rest, returned := false } }

def Output.step (mode : OutputMode) (s : Output) : OutputStep → Option Output
  | .xmitchars ready => some (xmitLoop ready s)
  | .write data =>
    if s.call = none then some { s with call := some ⟨[], data, false⟩ } else none
  | .refuse data => some { s with calls := s.calls ++ [(data, none)] }
  | .put => do
    let call ← s.call
    if s.xmit.Full then none else s.put mode call
  | .fail => do
    let call ← s.call
    if s.xmit.Full ∧ call.rest ≠ [] then some (s.fail call) else none
  | .finish => do
    let call ← s.call
    if call.rest = [] then
      some { s with call := none, calls := s.calls ++ [(call.done, some call.done.length)] }
    else none

/-- No call fails between a carriage return and the byte that it was put for. -/
def Whole (s : Output) : OutputStep → Prop
  | .fail => ∀ call ∈ s.call, call.returned = false
  | _ => True

inductive OutputRun (mode : OutputMode) (cond : Output → OutputStep → Prop) : Output → Prop
  | init (xmit : Ring Byte) (empty : xmit.Empty) : OutputRun mode cond ⟨xmit, [], none, []⟩
  | step {s s' : Output} (run : OutputRun mode cond s) (step : OutputStep) (meets : cond s step)
    (eq : s.step mode step = some s') : OutputRun mode cond s'

/-! ## What is in the ring -/

def accepted (mode : OutputMode) : Returned → List Byte
  | (data, some n) => (data.take n).flatMap mode.translate
  | (_, none) => []

def Write.put (mode : OutputMode) (call : Write) : List Byte :=
  call.done.flatMap mode.translate ++ if call.returned then [cr] else []

/-- The bytes sent and those in the ring are what the calls have put; a carriage return is there only
for a byte that takes one. -/
structure Output.Inv (mode : OutputMode) (s : Output) : Prop where
  bytes : s.sent ++ s.xmit.contents =
    s.calls.flatMap (accepted mode) ++ s.call.elim [] (Write.put mode)
  next : ∀ call ∈ s.call, call.returned = true → ∃ ch rest, call.rest = ch :: rest ∧
    mode.returns (mode.map ch)

variable {mode : OutputMode} {s s' : Output}

theorem xmitLoop_bytes (ready : ℕ) (s : Output) : (xmitLoop ready s).call = s.call ∧
    (xmitLoop ready s).calls = s.calls ∧ (xmitLoop ready s).sent ++ (xmitLoop ready s).xmit.contents = s.sent ++ s.xmit.contents := by
  induction ready generalizing s with
  | zero => exact ⟨rfl, rfl, rfl⟩
  | succ ready ih =>
    rw [xmitLoop]
    split
    · exact ⟨rfl, rfl, rfl⟩
    · next nonempty =>
      rw [(ih _).1, (ih _).2.1, (ih _).2.2, Ring.contents_drop nonempty, append_assoc]
      exact ⟨rfl, rfl, rfl⟩

theorem Output.Inv.fail (inv : s.Inv mode) {call : Write} (now : s.call = some call)
    (whole : call.returned = false) : (s.fail call).Inv mode := by
  refine ⟨?_, nofun⟩
  have bytes := inv.bytes
  simp only [now, elim_some, Write.put, whole] at bytes
  simp only [Output.fail, flatMap_append, flatMap_singleton, elim_none, append_nil]
  apply bytes.trans
  by_cases nothing : call.done = []
  all_goals simp [nothing, accepted]

theorem Output.Inv.put (inv : s.Inv mode) {call : Write} (now : s.call = some call)
    (room : ¬ s.xmit.Full) (eq : s.put mode call = some s') : s'.Inv mode := by
  have bytes := inv.bytes
  have next := inv.next call now
  rw [now, elim_some, Write.put] at bytes
  unfold Output.put at eq
  split at eq
  · cases eq
  next ch rest left =>
  split at eq
  · next returns =>
    cases eq
    refine ⟨?_, fun _ same _ => ?_⟩
    · simp only [Ring.contents_put room, ← append_assoc, bytes]
      simp [Write.put, returns.2]
    · cases same
      exact ⟨ch, rest, left, returns.1⟩
  · next plain =>
    cases eq
    refine ⟨?_, fun _ same returned => by cases same; cases returned⟩
    simp only [Ring.contents_put room, ← append_assoc, bytes]
    cases returned : call.returned with
    | false =>
      have : ¬ mode.returns (mode.map ch) := fun returns => plain ⟨returns, by simp [returned]⟩
      simp [Write.put, OutputMode.translate, this]
    | true =>
      obtain ⟨_, _, same, returns⟩ := next returned
      cases left.symm.trans same
      simp [Write.put, OutputMode.translate, returns]

theorem Output.step_inv (inv : s.Inv mode) {step : OutputStep} (whole : Whole s step)
    (eq : s.step mode step = some s') : s'.Inv mode := by
  have bytes := inv.bytes
  cases step with
  | xmitchars ready =>
    cases eq
    obtain ⟨call, calls, same⟩ := xmitLoop_bytes ready s
    exact ⟨by rw [same, call, calls, bytes], call ▸ inv.next⟩
  | write data =>
    obtain ⟨idle, ⟨⟩⟩ := ite_none_right_eq_some.mp eq
    refine ⟨?_, fun _ same returned => by cases same; cases returned⟩
    simpa [idle, Write.put] using bytes
  | refuse data =>
    cases eq
    refine ⟨?_, inv.next⟩
    simpa [accepted] using bytes
  | put =>
    obtain ⟨call, now, eq⟩ := bind_eq_some_iff.mp eq
    split at eq
    · cases eq
    next room => exact inv.put now room eq
  | fail =>
    obtain ⟨call, now, eq⟩ := bind_eq_some_iff.mp eq
    obtain ⟨_, ⟨⟩⟩ := ite_none_right_eq_some.mp eq
    exact inv.fail now (whole call now)
  | finish =>
    obtain ⟨call, now, eq⟩ := bind_eq_some_iff.mp eq
    obtain ⟨all, ⟨⟩⟩ := ite_none_right_eq_some.mp eq
    have plain : call.returned ≠ true := by
      intro returned
      obtain ⟨_, _, left, _⟩ := inv.next call now returned
      rw [all] at left
      cases left
    refine ⟨?_, nofun⟩
    simpa [now, Write.put, plain, accepted] using bytes

theorem OutputRun.inv (run : OutputRun mode Whole s) : s.Inv mode := by
  induction run with
  | init xmit empty => exact ⟨by simp [Ring.contents_empty empty], nofun⟩
  | step run step meets eq ih => exact Output.step_inv ih meets eq

/-- Between the calls, the bytes sent and those in the ring are the translation of what the calls have
accepted. -/
theorem output_translated (run : OutputRun mode Whole s) (idle : s.call = none) :
    s.sent ++ s.xmit.contents = s.calls.flatMap (accepted mode) := by
  simpa [idle] using run.inv.bytes

def ringOf (size : ℕ) (pos : 0 < size) : Ring Byte := ⟨size, 0, 0, fun _ => 0, pos, pos⟩

theorem output_translated_newline : ∃ s : Output, s.calls = [([nl], some 1)] ∧
    s.sent ++ s.xmit.contents = s.calls.flatMap (accepted (.plain true)) := by
  have start : OutputRun (.plain true) Whole _ := .init (ringOf 3 (by decide)) rfl
  have called := start.step (.write [nl]) trivial rfl
  have put := (called.step .put trivial rfl).step .put trivial rfl
  exact ⟨_, rfl, output_translated (put.step .finish trivial rfl) rfl⟩

/-- A call that does not block finds room for the carriage return only: it returns an error, and the
carriage return stays in the ring. -/
theorem lone_return : ∃ s, OutputRun (.plain true) (fun _ _ => True) s ∧ s.call = none ∧
    s.calls = [([nl], none)] ∧ s.sent ++ s.xmit.contents = [cr] := by
  have start : OutputRun (.plain true) (fun _ _ => True) _ := .init (ringOf 2 (by decide)) rfl
  have called := start.step (.write [nl]) trivial rfl
  have put := called.step .put trivial rfl
  exact ⟨_, put.step .fail trivial rfl, rfl, rfl, rfl⟩

end NuttxRtos.Serial
