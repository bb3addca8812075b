import NuttxRtos.Tcp.Model

/-!
# What callbacks can change

The handler of the sender works on the write buffers and the numbers that go with them, the
handler of the receiver on the received data, and neither on the state or on `rcvseq`.
-/

namespace NuttxRtos.Tcp

variable {B : Type}

/-- The fields of the sender agree with nothing in particular, all others are the same. -/
structure SendFrame (conn conn' : Conn B) : Prop where
  state : conn'.state = conn.state
  stopped : conn'.stopped = conn.stopped
  rcvseq : conn'.rcvseq = conn.rcvseq
  nrtx : conn'.nrtx = conn.nrtx
  mss : conn'.mss = conn.mss
  winsize : conn'.winsize = conn.winsize
  isn : conn'.isn = conn.isn
  ctlseq : conn'.ctlseq = conn.ctlseq
  readahead : conn'.readahead = conn.readahead
  receiver : conn'.receiver = conn.receiver
  received : conn'.received = conn.received
  closing : conn'.closing = conn.closing
  sndcbOwned : conn'.sndcbOwned = conn.sndcbOwned

variable (conn : Conn B)

namespace SendFrame

theorem refl : SendFrame conn conn := by
  constructor <;> rfl

theorem trans {a b c : Conn B} (h : SendFrame a b) (g : SendFrame b c) : SendFrame a c where
  state := g.state.trans h.state
  stopped := g.stopped.trans h.stopped
  rcvseq := g.rcvseq.trans h.rcvseq
  nrtx := g.nrtx.trans h.nrtx
  mss := g.mss.trans h.mss
  winsize := g.winsize.trans h.winsize
  isn := g.isn.trans h.isn
  ctlseq := g.ctlseq.trans h.ctlseq
  readahead := g.readahead.trans h.readahead
  receiver := g.receiver.trans h.receiver
  received := g.received.trans h.received
  closing := g.closing.trans h.closing
  sndcbOwned := g.sndcbOwned.trans h.sndcbOwned

end SendFrame

theorem rexmitHead_frame : SendFrame conn (rexmitHead conn) := by
  unfold rexmitHead
  split
  · exact .refl conn
  split
  · split <;> constructor <;> rfl
  · exact .refl conn

theorem rexmitBuffers_frame : SendFrame conn (rexmitBuffers conn) := by
  have start : SendFrame conn { rexmitHead conn with unackedQ := [] } :=
    (rexmitHead_frame conn).trans (by constructor <;> rfl)
  unfold rexmitBuffers
  induction conn.unackedQ with
  | nil => exact start
  | cons wrb rest ih =>
    refine ih.trans ?_
    rw [List.foldr_cons, requeue]
    split <;> constructor <;> rfl

theorem sendHead_frame (wrb : WrBuffer B) (rest : List (WrBuffer B)) :
    SendFrame conn (sendHead conn wrb rest).1 := by
  unfold sendHead
  dsimp only
  split <;> constructor <;> rfl

variable (flags : Flags)

theorem transmit_frame : SendFrame conn (transmit conn flags).1 := by
  unfold transmit
  split
  · split
    · exact .refl conn
    · exact sendHead_frame conn _ _
  · exact .refl conn

theorem sendEventhandler_frame (ackno : Seq) :
    SendFrame conn (sendEventhandler conn flags ackno).1 := by
  unfold sendEventhandler
  split
  · exact .refl conn
  split
  · exact .trans (by constructor <;> rfl) (transmit_frame _ flags)
  split
  · constructor <;> rfl
  split
  · exact (rexmitBuffers_frame conn).trans (transmit_frame _ flags)
  · exact transmit_frame conn flags

theorem sendEventhandler_flags (ackno : Seq) :
    ∃ poll, (sendEventhandler conn flags ackno).2.1 = { flags with poll } := by
  have transmitFlags : ∀ conn : Conn B, ∃ poll, (transmit conn flags).2.1 = { flags with poll } := by
    intro conn
    unfold transmit
    split
    · split
      · exact ⟨flags.poll, rfl⟩
      · exact ⟨false, rfl⟩
    · exact ⟨flags.poll, rfl⟩
  unfold sendEventhandler
  split
  · exact ⟨flags.poll, rfl⟩
  split
  · exact transmitFlags _
  split
  · exact ⟨flags.poll, rfl⟩
  split
  all_goals exact transmitFlags _

variable (env : Env) (conn : Conn B) (flags : Flags) (ackno : Seq) (data : List B)

theorem recvEventhandler_frame :
    ∃ readahead received receiver, (recvEventhandler env conn flags data).1 =
      { conn with readahead, received, receiver } := by
  unfold recvEventhandler
  split
  · exact ⟨_, _, _, rfl⟩
  split
  · dsimp only [newdata, datahandler]
    split <;> split <;> (try split) <;> exact ⟨_, _, _, rfl⟩
  · exact ⟨_, _, _, rfl⟩

theorem recvEventhandler_flags : ∃ newdata sndack, (recvEventhandler env conn flags data).2.1 =
      { flags with newdata, sndack } := by
  unfold recvEventhandler
  split
  · exact ⟨flags.newdata, flags.sndack, rfl⟩
  split
  · exact ⟨false, true, rfl⟩
  · exact ⟨flags.newdata, flags.sndack, rfl⟩

theorem dataEvent_frame :
    ∃ readahead, (dataEvent env conn flags data).1 = { conn with readahead } := by
  unfold dataEvent datahandler
  dsimp only
  split
  · exact ⟨_, rfl⟩
  split <;> exact ⟨_, rfl⟩

theorem dataEvent_flags :
    ∃ sndack, (dataEvent env conn flags data).2 = { flags with newdata := false, sndack } := by
  unfold dataEvent
  split
  · exact ⟨true, rfl⟩
  · exact ⟨_, rfl⟩

theorem closeEventhandler_frame :
    ∃ closing, (closeEventhandler conn flags data).1 = { conn with closing } := by
  unfold closeEventhandler
  split
  · exact ⟨conn.closing, rfl⟩
  split
  · exact ⟨false, rfl⟩
  split
  · exact ⟨conn.closing, rfl⟩
  split <;> exact ⟨conn.closing, rfl⟩

/-- The callbacks other than a pending close ask for no close or abort of their own. -/
theorem deliver_flags : (deliver env conn flags ackno data).2.1.close = flags.close ∧
      (deliver env conn flags ackno data).2.1.abort = flags.abort := by
  unfold deliver
  obtain ⟨newdata, sndack, hrecv⟩ := recvEventhandler_flags env conn flags data
  generalize recvEventhandler env conn flags data = taken at hrecv
  obtain ⟨connR, flagsR, dataR⟩ := taken
  obtain ⟨poll, hsend⟩ := sendEventhandler_flags connR flagsR ackno
  dsimp only at hrecv ⊢
  generalize sendEventhandler connR flagsR ackno = sent at hsend
  obtain ⟨connS, flagsS, snd⟩ := sent
  subst hrecv hsend
  split
  · obtain ⟨sndack', hdata⟩ := dataEvent_flags env connS
      { flags with newdata, sndack, poll } dataR
    rw [hdata]
    exact ⟨rfl, rfl⟩
  · exact ⟨rfl, rfl⟩

/-! ## The sender in a callback -/

/-- The events that reach the handler of the sender: a pending close may have added its own. -/
structure SenderFlags (conn : Conn B) (flags flags' : Flags) : Prop where
  ackdata : flags'.ackdata = flags.ackdata
  rexmit : flags'.rexmit = flags.rexmit
  poll : flags'.poll = flags.poll
  abort : flags'.abort = flags.abort
  timedout : flags'.timedout = flags.timedout
  close : flags'.close = flags.close ∨ conn.closing = true ∧ flags'.close = true

theorem closeEventhandler_flags :
    SenderFlags conn flags (closeEventhandler conn flags data).2.1 := by
  unfold closeEventhandler
  split
  · exact ⟨rfl, rfl, rfl, rfl, rfl, .inl rfl⟩
  next closing =>
  have closing : conn.closing = true := by simpa using closing
  split
  · exact ⟨rfl, rfl, rfl, rfl, rfl, .inl rfl⟩
  split
  · exact ⟨rfl, rfl, rfl, rfl, rfl, .inl rfl⟩
  split
  · exact ⟨rfl, rfl, rfl, rfl, rfl, .inl rfl⟩
  · exact ⟨rfl, rfl, rfl, rfl, rfl, .inr ⟨closing, rfl⟩⟩

/-- A callback is the handler of the sender, with changes of the receiver's fields before and
after it. -/
theorem callback_sender :
    ∃ closing readahead received receiver flags' readahead', SenderFlags conn flags flags' ∧
      (callback env conn flags ackno data).1 =
        { (sendEventhandler { conn with closing, readahead, received, receiver } flags' ackno).1 with
          readahead := readahead' } ∧
      (callback env conn flags ackno data).2.2 =
        (sendEventhandler { conn with closing, readahead, received, receiver } flags' ackno).2.2 ∧
      (callback env conn flags ackno data).2.1.close = flags'.close ∧
      (callback env conn flags ackno data).2.1.abort = flags'.abort := by
  obtain ⟨closing, hclose⟩ := closeEventhandler_frame conn flags data
  have sender := closeEventhandler_flags conn flags data
  unfold callback
  generalize closeEventhandler conn flags data = closed at hclose sender
  obtain ⟨connC, flagsC, dataC⟩ := closed
  dsimp only at hclose sender ⊢
  have answered := deliver_flags env connC flagsC ackno dataC
  revert answered
  unfold deliver
  obtain ⟨readahead, received, receiver, hrecv⟩ := recvEventhandler_frame env connC flagsC dataC
  obtain ⟨newdata, sndack, hflags⟩ := recvEventhandler_flags env connC flagsC dataC
  generalize recvEventhandler env connC flagsC dataC = taken at hrecv hflags
  obtain ⟨connR, flagsR, dataR⟩ := taken
  dsimp only at hrecv hflags ⊢
  intro answered
  have same : connR = { conn with closing, readahead, received, receiver } := by
    rw [hrecv, hclose]
  have passed : SenderFlags conn flags flagsR := by
    rw [hflags]
    exact { sender with }
  have close : flagsR.close = flagsC.close ∧ flagsR.abort = flagsC.abort := by
    rw [hflags]
    exact ⟨rfl, rfl⟩
  rw [← close.1, ← close.2] at answered
  by_cases fresh : (sendEventhandler connR flagsR ackno).2.1.newdata = true
  · rw [if_pos fresh] at answered ⊢
    obtain ⟨readahead', hdata⟩ := dataEvent_frame env (sendEventhandler connR flagsR ackno).1
      (sendEventhandler connR flagsR ackno).2.1 dataR
    refine ⟨closing, readahead, received, receiver, flagsR, readahead', passed, ?_, ?_, answered⟩
    · rw [← same]
      exact hdata
    · rw [← same]
  rw [if_neg fresh] at answered ⊢
  refine ⟨closing, readahead, received, receiver, flagsR,
    (sendEventhandler connR flagsR ackno).1.readahead, passed, ?_, ?_, answered⟩
  · rw [← same]
  · rw [← same]

/-! ## What is left alone -/

structure CallbackFrame (conn conn' : Conn B) : Prop where
  state : conn'.state = conn.state
  stopped : conn'.stopped = conn.stopped
  rcvseq : conn'.rcvseq = conn.rcvseq
  mss : conn'.mss = conn.mss
  winsize : conn'.winsize = conn.winsize
  isn : conn'.isn = conn.isn
  ctlseq : conn'.ctlseq = conn.ctlseq

theorem callback_frame : CallbackFrame conn (callback env conn flags ackno data).1 := by
  obtain ⟨closing, readahead, received, receiver, flags', _, -, same, -⟩ :=
    callback_sender env conn flags ackno data
  rw [same]
  exact { sendEventhandler_frame { conn with closing, readahead, received, receiver } flags' ackno with }

/-- With nothing that asks for a close or an abort, the answer leaves the state as it is. -/
theorem respond_state {conn : Conn B} (notClosing : conn.closing = false)
    {flags : Flags} (noClose : flags.close = false) (noAbort : flags.abort = false) (ackno : Seq)
    (data : List B) : (respond env conn flags ackno data).1.state = conn.state := by
  obtain ⟨close, abort⟩ := deliver_flags env conn flags ackno data
  have same : callback env conn flags ackno data = deliver env conn flags ackno data := by
    simp [callback, closeEventhandler, notClosing]
  rw [← same] at close abort
  rw [noClose] at close
  rw [noAbort] at abort
  unfold respond appsend
  dsimp only
  rw [close, abort]
  exact (callback_frame env conn flags ackno data).state

end NuttxRtos.Tcp
