import NuttxRtos.Tcp.Stream

/-!
# The peer's window

Without retransmissions the next segment always begins behind everything sent before. It is cut to
the window, whatever is in flight already.
-/

namespace NuttxRtos.Tcp

open List

variable {B : Type} {cfg : Config} {conn : Conn B} {isn sent : Seq} {stream : List B}
  {outs : List (Output B)}

/-! ## What is in flight -/

/-- Where the data of a segment ends in the stream. -/
def Output.reach (isn : Seq) (out : Output B) : ℕ :=
  if out.data.isEmpty then 0 else (out.seqno - isn).toNat + out.data.length

/-- Where the data of some segments ends in the stream. -/
def highest (isn : Seq) (outs : List (Output B)) : ℕ := (outs.map (Output.reach isn)).foldr max 0

/-- The bytes sent beyond an acknowledgment number. -/
def inFlight (isn : Seq) (outs : List (Output B)) (ackno : Seq) : ℕ :=
  highest isn outs - (ackno - isn).toNat

theorem highest_append (isn : Seq) (outs outs' : List (Output B)) :
    highest isn (outs ++ outs') = max (highest isn outs) (highest isn outs') := by
  induction outs with
  | nil => simp [highest]
  | cons out rest ih =>
    simp only [highest, cons_append, map_cons, foldr_cons] at ih ⊢
    rw [ih, Nat.max_assoc]

theorem highest_noData (noData : ∀ out ∈ outs, out.data = []) : highest isn outs = 0 := by
  induction outs with
  | nil => rfl
  | cons out rest ih =>
    have rest := ih fun other mem => noData other (mem_cons_of_mem out mem)
    simp only [highest, map_cons, foldr_cons] at rest ⊢
    rw [rest, Output.reach, noData out mem_cons_self]
    rfl

theorem highest_rexmit (isn : Seq) (conn : Conn B) (result : Flags) {snd : List B}
    (some : snd ≠ []) :
    highest isn (rexmit conn result snd) = (conn.sndseq - isn).toNat + snd.length := by
  simp [rexmit, some, highest, Output.reach, output]

/-! ## What a poll and a segment do to the sender -/

/-- What a step of a connection in `TCP_ESTABLISHED` does to the sender, if it is not a
retransmission. -/
inductive Sending (conn : Conn B) (result : Conn B × List (Output B)) : Prop
  | left (state : result.1.state ≠ .established) (noData : ∀ out ∈ result.2, out.data = [])
  | quiet (same : SameSender conn result.1) (numbers : SameNumbers conn result.1)
      (noData : ∀ out ∈ result.2, out.data = [])
  | sends (wrb : WrBuffer B) (rest : List (WrBuffer B)) (flags : Flags)
      (writeQ : conn.writeQ = wrb :: rest)
      (same : SameSender (sendHead conn wrb rest).1 result.1)
      (numbers : SameNumbers (sendHead conn wrb rest).1 result.1)
      (outs : result.2 = rexmit result.1 flags (sendHead conn wrb rest).2)

variable {conn' : Conn B}

theorem sendHead_receiver (conn : Conn B) (wrb : WrBuffer B) (rest writeQ : List (WrBuffer B))
    (closing : Bool) (readahead : List (List B)) (received : List B) (receiver : Option ℕ) :
    sendHead { conn with writeQ, closing, readahead, received, receiver } wrb rest =
      ({ (sendHead conn wrb rest).1 with closing, readahead, received, receiver },
        (sendHead conn wrb rest).2) := by
  unfold sendHead
  dsimp only
  split <;> rfl

theorem poll_sending (env : Env) (established : conn.state = .established) :
    Sending conn (poll env conn) := by
  rw [poll, if_pos established, respond]
  obtain ⟨closing, readahead, received, receiver, flags, readahead', sender, after, snd, close,
    abort⟩ := callback_sender env conn { poll := true } 0 []
  generalize callback env conn { poll := true } 0 [] = called at after snd close abort
  obtain ⟨conn', result, data⟩ := called
  dsimp only at after snd close abort ⊢
  rcases appsend_cases conn' result data with ⟨state, noData⟩ | ⟨notAbort, notClose, answer⟩
  · exact .left state noData
  rw [answer]
  have alive : flags.disconn = false := by
    rw [Flags.disconn, ← close, ← abort, sender.timedout, notAbort, notClose]
    rfl
  have quiet : conn' = { conn with closing, readahead := readahead', received, receiver } →
      data = [] → Sending conn (conn', rexmit conn' result data) := by
    rintro rfl rfl
    exact .quiet ⟨rfl, rfl, rfl, rfl, rfl⟩ ⟨rfl, rfl, rfl⟩ (rexmit_noData _ _)
  rw [sendEventhandler, sender.ackdata, alive, sender.rexmit] at after snd
  split at after
  · next noCallback =>
    rw [if_pos noCallback] at snd
    exact quiet after snd
  next callback =>
  rw [if_neg callback] at snd
  simp only [Bool.false_eq_true, if_false] at after snd
  unfold transmit at after snd
  split at after
  · next may =>
    rw [if_pos may] at snd
    split at after
    · next writeQ =>
      dsimp only at writeQ
      simp only [writeQ] at snd
      exact quiet after snd
    next wrb rest writeQ =>
    dsimp only at writeQ
    simp only [writeQ, sendHead_receiver] at snd
    rw [sendHead_receiver] at after
    subst after
    exact .sends wrb rest result writeQ ⟨rfl, rfl, rfl, rfl, rfl⟩ ⟨rfl, rfl, rfl⟩
      (congrArg (rexmit _ result) snd)
  next mayNot =>
  rw [if_neg mayNot] at snd
  exact quiet after snd

variable {seg : Segment B} {ackno : Seq} {writeQ unackedQ : List (WrBuffer B)}

/-! ## Sending in order -/

/-- At most the head of `write_q` has a number, and what has been sent of it is the end of what has
been sent at all. -/
def InOrder (isn sent : Seq) : List (WrBuffer B) → Prop
  | [] => True
  | wrb :: rest => (∀ other ∈ rest, other.seqno = unassigned ∧ other.sent = 0) ∧
      (wrb.seqno = unassigned ∧ wrb.sent = 0 ∨
        wrb.seqno ≠ unassigned ∧ wrb.seqno + BitVec.ofNat 32 wrb.sent = isn + sent)

variable {queue : List (WrBuffer B)}

theorem InOrder.of_fresh
    (fresh : ∀ wrb ∈ queue, wrb.seqno = unassigned ∧ wrb.sent = 0) : InOrder isn sent queue := by
  cases queue with
  | nil => trivial
  | cons wrb rest =>
    exact ⟨fun other mem => fresh other (mem_cons_of_mem wrb mem), .inl (fresh wrb mem_cons_self)⟩

theorem InOrder.send (order : InOrder isn sent queue)
    (data : List B) : InOrder isn sent (queue ++ [WrBuffer.fresh data]) := by
  cases queue with
  | nil => exact ⟨by simp, .inl ⟨rfl, rfl⟩⟩
  | cons wrb rest =>
    obtain ⟨fresh, head⟩ := order
    refine ⟨fun other mem => ?_, head⟩
    rcases mem_append.1 mem with mem | mem
    · exact fresh other mem
    · rw [mem_singleton.1 mem]
      exact ⟨rfl, rfl⟩

theorem InOrder.ackHead (order : InOrder isn sent queue) (within : AckWithinHead queue ackno)
    (number : ackno ≠ unassigned) : InOrder isn sent (ackHead ackno queue) := by
  cases queue with
  | nil => trivial
  | cons wrb rest =>
    obtain ⟨fresh, head⟩ := order
    rw [Tcp.ackHead]
    split
    · next acked =>
      obtain ⟨some, above⟩ := acked
      have within : ackno.toNat ≤ wrb.seqno.toNat + wrb.sent := within wrb rfl some
      rcases head with ⟨-, zero⟩ | ⟨-, head⟩
      · omega
      refine ⟨fresh, .inr ⟨number, ?_⟩⟩
      simp only [WrBuffer.trim]
      bv_omega
    · exact ⟨fresh, head⟩

variable {wrb : WrBuffer B} {rest : List (WrBuffer B)}

theorem InOrder.sndseq (order : InOrder conn.isn conn.sent (wrb :: rest)) :
    (sendHead conn wrb rest).1.sndseq = conn.isn + conn.sent := by
  have number : wrb.numbered conn + BitVec.ofNat 32 wrb.sent = conn.isn + conn.sent := by
    unfold WrBuffer.numbered
    rcases order.2 with ⟨new, zero⟩ | ⟨old, head⟩
    · rw [if_pos new, zero]
      simp
    · rw [if_neg old]
      exact head
  unfold sendHead
  dsimp only
  split <;> exact number

theorem sendHead_length (conn : Conn B) (wrb : WrBuffer B) (rest : List (WrBuffer B)) :
    (sendHead conn wrb rest).2.length = wrb.sndlen conn.mss conn.winsize := by
  have : wrb.sndlen conn.mss conn.winsize ≤ wrb.data.length - wrb.sent := by
    unfold WrBuffer.sndlen
    omega
  unfold sendHead
  dsimp only
  split <;> simp only [length_take, length_drop] <;> omega

theorem InOrder.sendHead
    (order : InOrder conn.isn conn.sent (wrb :: rest)) (number : wrb.numbered conn ≠ unassigned) :
    InOrder conn.isn (sendHead conn wrb rest).1.sent (sendHead conn wrb rest).1.writeQ := by
  have next := order.sndseq
  unfold Tcp.sendHead at next ⊢
  dsimp only at next ⊢
  split at next
  · next all =>
    rw [if_pos all]
    exact .of_fresh order.1
  next part =>
  rw [if_neg part]
  refine ⟨order.1, .inr ⟨number, ?_⟩⟩
  dsimp only at next ⊢
  rw [BitVec.ofNat_add, ← BitVec.add_assoc, next, BitVec.add_assoc]

/-! ## Runs -/

/-- The acknowledgment number and the window that the peer has sent last. -/
def advertised (adv : Seq × ℕ) : Event B → Seq × ℕ
  | .input _ seg => (seg.ackno, seg.wnd)
  | _ => adv

/-- What happens without retransmissions, with a peer that acknowledges what was sent. -/
def Plain (isn : Seq) (outs : List (Output B)) : Event B → Prop
  | .send data => data.length < 2 ^ 16
  | .input _ seg => seg.ctl.ack = true ∧ (seg.ackno - isn).toNat ≤ highest isn outs
  | .timeout _ => False
  | _ => True

/-- A connection in `TCP_ESTABLISHED` since nothing has been sent, with the data of the application,
the segments handed to the device and what the peer advertised last. -/
inductive WindowRun (cfg : Config) (isn : Seq) :
    Conn B → List B → List (Output B) → Seq × ℕ → Prop
  | start {conn : Conn B} (isn_ : conn.isn = isn) (established : conn.state = .established)
      (sent : conn.sent = 0) (writeQ : conn.writeQ = []) (unackedQ : conn.unackedQ = []) :
      WindowRun cfg isn conn [] [] (isn, conn.winsize)
  | step {conn : Conn B} {stream : List B} {outs : List (Output B)} {adv : Seq × ℕ}
      (before : WindowRun cfg isn conn stream outs adv) (established : conn.state = .established)
      (event : Event B) (plain : Plain isn outs event) :
      WindowRun cfg isn (step cfg conn event).1 (stream ++ accepted event)
        (outs ++ (step cfg conn event).2) (advertised adv event)

/-- What has been sent is counted, and the next number follows. -/
structure WindowInv (isn : Seq) (conn : Conn B) (stream : List B) (outs : List (Output B))
    (adv : Seq × ℕ) : Prop where
  isn_ : conn.isn = isn
  numbered : Numbered conn stream
  order : InOrder isn conn.sent conn.writeQ
  high : highest isn outs = conn.sent.toNat
  acked : (adv.1 - isn).toNat ≤ conn.sent.toNat
  wnd : conn.winsize = adv.2

theorem Placed.sent_le (placed : Placed isn sent writeQ unackedQ stream) :
    sent.toNat ≤ stream.length := by
  obtain ⟨numbered, fresh, -, split⟩ := placed.queue
  have := split.reaches
  omega

theorem Placed.room (placed : Placed isn sent (wrb :: rest) unackedQ stream) :
    sent.toNat + (wrb.data.length - wrb.sent) ≤ stream.length := by
  obtain ⟨at_, placed⟩ := placed.withNumber
  obtain ⟨numbered, fresh, -, split⟩ := placed.numberedHead at_
  have reaches := split.reaches
  rw [unsent_cons] at reaches
  simp only [WrBuffer.withNumber] at reaches
  omega

theorem Placed.ackWithinHead (placed : Placed isn sent writeQ unackedQ stream)
    (order : InOrder isn sent writeQ) (acks : (ackno - isn).toNat ≤ sent.toNat) :
    AckWithinHead writeQ ackno := by
  have le := placed.sent_le
  have noWrap := placed.noWrap
  intro wrb mem some
  cases writeQ with
  | nil => simp at mem
  | cons head rest =>
    obtain rfl : head = wrb := by simpa using mem
    rcases order.2 with ⟨-, zero⟩ | ⟨old, next⟩
    · omega
    obtain ⟨start, seqno, -, fits, part⟩ := placed.withNumber.1
    bv_omega

variable {adv : Seq × ℕ}

theorem SameSender.windowInv (same : SameSender conn conn')
    (inv : WindowInv isn conn stream outs adv) {outs' : List (Output B)}
    (noData : ∀ out ∈ outs', out.data = []) : WindowInv isn conn' stream (outs ++ outs') adv where
  isn_ := same.isn.trans inv.isn_
  numbered := by
    rw [Numbered, same.isn, same.sent, same.writeQ, same.unackedQ]
    exact inv.numbered
  order := by
    rw [same.sent, same.writeQ]
    exact inv.order
  high := by
    rw [highest_append, highest_noData noData, same.sent, inv.high, Nat.max_zero]
  acked := by
    rw [same.sent]
    exact inv.acked
  wnd := same.winsize.trans inv.wnd

section

variable (inv : WindowInv isn conn stream outs adv)
include inv

theorem WindowInv.send {data : List B} (numbered : Numbered (send conn data) (stream ++ data)) :
    WindowInv isn (send conn data) (stream ++ data) outs adv := by
  obtain ⟨isn_, -, order, high, acked, wnd⟩ := inv
  unfold Tcp.send at numbered ⊢
  split at numbered
  · next may =>
    rw [if_pos may]
    exact ⟨isn_, numbered, order.send data, high, acked, wnd⟩
  · next mayNot =>
    rw [if_neg mayNot]
    exact ⟨isn_, numbered, order, high, acked, wnd⟩

theorem WindowInv.sends
    (writeQ : conn.writeQ = wrb :: rest) (same : SameSender (sendHead conn wrb rest).1 conn')
    (sndseq : conn'.sndseq = (sendHead conn wrb rest).1.sndseq) (flags : Flags) :
    WindowInv isn conn' stream (outs ++ rexmit conn' flags (sendHead conn wrb rest).2) adv ∧
      conn'.sent.toNat = conn.sent.toNat + wrb.sndlen conn.mss conn.winsize := by
  obtain ⟨rfl, numbered, order, high, acked, wnd⟩ := inv
  rw [Numbered, writeQ] at numbered
  rw [writeQ] at order
  have frame := sendHead_frame conn wrb rest
  have placed := (sendHead_placed numbered).1
  have number : wrb.numbered conn ≠ unassigned := by
    intro eq
    have := numbered.withNumber.1.ne_unassigned numbered.noWrap
    rw [show (wrb.withNumber conn.isn conn.sent).seqno = unassigned from eq] at this
    exact Nat.lt_irrefl _ this
  have sent : conn'.sent.toNat = conn.sent.toNat + wrb.sndlen conn.mss conn.winsize := by
    have room := numbered.room
    have noWrap := numbered.noWrap
    have le : wrb.sndlen conn.mss conn.winsize ≤ wrb.data.length - wrb.sent := by
      unfold WrBuffer.sndlen
      omega
    rw [same.sent, sendHead]
    split <;> bv_omega
  refine ⟨⟨same.isn.trans frame.isn, ?_, ?_, ?_, ?_, ?_⟩, sent⟩
  · rw [Numbered, same.isn, same.sent, same.writeQ, same.unackedQ]
    exact placed
  · rw [same.sent, same.writeQ]
    exact order.sendHead number
  · rw [highest_append, high]
    by_cases some : (sendHead conn wrb rest).2 = []
    · have zero := sendHead_length conn wrb rest
      rw [some, length_nil] at zero
      rw [some, highest_noData (rexmit_noData _ _)]
      omega
    rw [highest_rexmit _ _ _ some, sndseq, order.sndseq, sendHead_length, sent]
    have : (conn.isn + conn.sent - conn.isn).toNat = conn.sent.toNat := by bv_omega
    omega
  · omega
  · rw [same.winsize, frame.winsize, wnd]

theorem WindowInv.step
    (established : conn.state = .established) {event : Event B} (plain : Plain isn outs event)
    (noWrap : isn.toNat + (stream ++ accepted event).length < 2 ^ 32 - 1)
    (stays : (step cfg conn event).1.state = .established) :
    WindowInv isn (Tcp.step cfg conn event).1 (stream ++ accepted event)
      (outs ++ (Tcp.step cfg conn event).2) (advertised adv event) := by
  cases event with
  | send data =>
    have tame : Tame conn (.send data) := plain
    have numbered := ((step_right cfg inv.numbered established tame
      (inv.isn_ ▸ noWrap)).conn stays).2
    have next := inv.send numbered
    simpa [accepted, advertised, Tcp.step] using next
  | input env seg =>
    have acks : (seg.ackno - isn).toNat ≤ conn.sent.toNat := inv.high ▸ plain.2
    have placed : Placed isn conn.sent conn.writeQ conn.unackedQ stream := inv.isn_ ▸ inv.numbered
    have within := placed.ackWithinHead inv.order acks
    have number : seg.ackno ≠ unassigned := by
      have := placed.noWrap
      have := placed.sent_le
      unfold unassigned
      bv_omega
    simp only [accepted, append_nil]
    have heard : WindowInv isn { conn with winsize := seg.wnd } stream outs (seg.ackno, seg.wnd) :=
      ⟨inv.isn_, inv.numbered, inv.order, inv.high, acks, rfl⟩
    rcases (input_acking cfg env established seg).1 with ⟨state, -⟩ | ⟨same, noData⟩ |
      ⟨same, noData⟩
    · exact absurd stays state
    · exact same.windowInv heard noData
    · refine same.windowInv ?_ noData
      exact ⟨inv.isn_, inv.numbered.ack within, inv.order.ackHead within number, inv.high, acks, rfl⟩
  | poll env =>
    simp only [accepted, append_nil]
    rcases poll_sending env established with ⟨state, -⟩ | ⟨same, -, noData⟩ |
      ⟨wrb, rest, flags, writeQ, same, numbers, sends⟩
    · exact absurd stays state
    · exact same.windowInv inv noData
    have next := (inv.sends writeQ same numbers.sndseq flags).1
    rw [← sends] at next
    exact next
  | timeout env => exact plain.elim
  | recvfrom buflen =>
    simp only [accepted, append_nil]
    have same : SameSender conn (recvfrom conn buflen) := by
      unfold recvfrom
      dsimp only
      split <;> exact ⟨rfl, rfl, rfl, rfl, rfl⟩
    exact same.windowInv inv (by simp [Tcp.step])
  | stopWaiting =>
    have same : SameSender conn (stopWaiting conn) := ⟨rfl, rfl, rfl, rfl, rfl⟩
    simp only [accepted, append_nil]
    exact same.windowInv inv (by simp [Tcp.step])
  | close =>
    have same : SameSender conn (close conn) := ⟨rfl, rfl, rfl, rfl, rfl⟩
    simp only [accepted, append_nil]
    exact same.windowInv inv (by simp [Tcp.step])

end

theorem WindowRun.inv (run : WindowRun cfg isn conn stream outs adv)
    (noWrap : isn.toNat + stream.length < 2 ^ 32 - 1) (established : conn.state = .established) :
    WindowInv isn conn stream outs adv := by
  induction run with
  | start isn_ established sent writeQ unackedQ =>
    subst isn_
    refine ⟨rfl, ⟨noWrap, ⟨[], [], by simp [writeQ], by simp, by simp, by simp, by simp [sent]⟩,
      by simp [unackedQ], by simp [writeQ, unackedQ]⟩, ?_, ?_, ?_, rfl⟩
    · rw [writeQ]
      trivial
    · simp [highest, sent]
    · simp
  | step before was event plain ih =>
    refine (ih ?_ was).step was plain noWrap established
    simp at noWrap
    omega

/-- The peer opens its window for two bytes. -/
def smallWindow : Segment ℕ := { pureAck 1001 with wnd := 2 }

/-- The connection to that peer with four bytes in two buffers. -/
def waiting : Conn ℕ :=
  send (send (input buffered ⟨true, true⟩ peerConnected smallWindow).1 [1, 2]) [3, 4]

theorem waiting_run : WindowRun buffered 1001 waiting [1, 2, 3, 4] [] (1001, 2) := by
  have short : ([1, 2] : List ℕ).length < 2 ^ 16 ∧ ([3, 4] : List ℕ).length < 2 ^ 16 := by decide
  have started : WindowRun buffered 1001 peerConnected [] [] (1001, 1000) :=
    .start (by decide) (by decide) (by decide) (by decide) (by decide)
  have heard := started.step (by decide) (.input ⟨true, true⟩ smallWindow) ⟨rfl, by decide⟩
  exact (heard.step (by decide) (.send [1, 2]) short.1).step (by decide) (.send [3, 4]) short.2

end NuttxRtos.Tcp
