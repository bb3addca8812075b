import NuttxRtos.Tcp.Window

/-!
# What is not acknowledged yet

`tcp_input` takes the lowest number that is not acknowledged, and the count of the bytes behind it,
from the last acknowledgment that it looks at, which need not be the highest. A retransmission and a
keep-alive probe change the count for a purpose of their own.
-/

namespace NuttxRtos.Tcp

open List

variable {B : Type} {cfg : Config} {isn : Seq} {conn conn' : Conn B} {high : ℕ} {seg : Segment B}

/-- `tcp_input` gets to the acknowledgment number, and bytes wait for one. -/
def Reads (cfg : Config) (conn : Conn B) (seg : Segment B) : Prop :=
  ¬ (isProbe cfg conn seg ∨ ¬ inSequence conn seg) ∧ seg.ctl.ack ∧ 0 < conn.txUnacked

instance : Decidable (Reads cfg conn seg) := inferInstanceAs (Decidable (_ ∧ _))

theorem looked_eq (cfg : Config) (conn : Conn B) (seg : Segment B) :
    looked cfg conn seg = if Reads cfg conn seg then (acknowledge cfg conn seg).1 else conn := by
  unfold looked
  split
  · next unread => rw [if_neg fun reads => reads.1 unread]
  next gets =>
  split
  · rfl
  · next skips => rw [acknowledge, if_neg fun acks => skips ⟨gets, acks⟩]

/-! ## Runs -/

/-- A connection with the bytes of the application, the segments handed to the device, the lowest
unacknowledged number recorded, and the highest acknowledgment. It is steady until the timer expires
or a probe is sent. -/
structure AckState (B : Type) where
  conn : Conn B
  steady : Bool
  stream : List B
  outs : List (Output B)
  una : ℕ
  high : ℕ

variable {s : AckState B}

/-- One event. -/
def AckState.next (cfg : Config) (s : AckState B) (event : Event B) : AckState B where
  conn := (step cfg s.conn event).1
  steady := match event with
    | .timeout _ => false
    | _ => s.steady
  stream := s.stream ++ accepted event
  outs := s.outs ++ (step cfg s.conn event).2
  una := match event with
    | .input _ seg =>
      if Reads cfg s.conn seg then (acknowledge cfg s.conn seg).1.sndseq.toNat else s.una
    | _ => s.una
  high := match event with
    | .input _ seg => if seg.ctl.ack then max s.high seg.ackno.toNat else s.high
    | _ => s.high

/-- A connection in `TCP_ESTABLISHED` from the time when nothing has been sent. -/
inductive AckRun (cfg : Config) (isn : Seq) (ok : AckState B → Event B → Prop) : AckState B → Prop
  | start {conn : Conn B} (isn_ : conn.isn = isn) (established : conn.state = .established)
      (sent : conn.sent = 0) (writeQ : conn.writeQ = []) (unackedQ : conn.unackedQ = [])
      (txUnacked : conn.txUnacked = 0) (sndseqMax : conn.sndseqMax = 0) :
      AckRun cfg isn ok ⟨conn, true, [], [], isn.toNat, isn.toNat⟩
  | step {s : AckState B} (before : AckRun cfg isn ok s) (established : s.conn.state = .established)
      (event : Event B) (holds : ok s event) : AckRun cfg isn ok (s.next cfg event)
  | probe {s : AckState B} (before : AckRun cfg isn ok s) (garbage : B) :
      AckRun cfg isn ok { s with
        conn := (probe cfg s.conn garbage).1
        outs := s.outs ++ (probe cfg s.conn garbage).2
        steady := false }

/-- The peer acknowledges what was sent. A segment whose acknowledgment is read acknowledges no less
than those before it. Any other one comes while the connection is steady and acknowledges no more,
as long as something is unacknowledged. -/
def Ordered (cfg : Config) (isn : Seq) (s : AckState B) : Event B → Prop
  | .send data => data.length < 2 ^ 16
  | .input _ seg => seg.ctl.ack = true ∧ (seg.ackno - isn).toNat ≤ highest isn s.outs ∧
      if Reads cfg s.conn seg then s.high ≤ seg.ackno.toNat
      else s.steady = true ∧ (0 < s.conn.txUnacked → seg.ackno.toNat ≤ s.high)
  | _ => True

/-! ## The count -/

/-- `tx_unacked` counts the bytes from the highest acknowledgment to `sndseq_max`, which is behind
everything that has been sent. -/
structure Counted (isn : Seq) (conn : Conn B) (high : ℕ) : Prop where
  count : conn.txUnacked.toNat = conn.sndseqMax.toNat - high
  above : isn.toNat ≤ high
  below : high ≤ isn.toNat + conn.sent.toNat
  max : conn.sndseqMax = isn + conn.sent ∨ conn.sndseqMax = 0 ∧ conn.sent = 0

theorem SameNumbers.counted (numbers : SameNumbers conn conn') (sent : conn'.sent = conn.sent)
    (counted : Counted isn conn high) : Counted isn conn' high := by
  obtain ⟨count, above, below, max⟩ := counted
  constructor
  · rw [numbers.txUnacked, numbers.sndseqMax, count]
  · exact above
  · rw [sent]
    exact below
  · rw [numbers.sndseqMax, sent]
    exact max

theorem sendHead_numbers (conn : Conn B) (wrb : WrBuffer B) (rest : List (WrBuffer B)) :
    ∃ len ≤ wrb.data.length - wrb.sent,
      (sendHead conn wrb rest).1.sent = conn.sent + BitVec.ofNat 32 len ∧
      (sendHead conn wrb rest).1.txUnacked = conn.txUnacked + BitVec.ofNat 32 len ∧
      (sendHead conn wrb rest).1.sndseqMax =
        let predicted := (sendHead conn wrb rest).1.sndseq + BitVec.ofNat 32 len
        if conn.sndseqMax < predicted ∨ predicted < (sendHead conn wrb rest).1.sndseq then predicted
        else conn.sndseqMax := by
  refine ⟨wrb.sndlen conn.mss conn.winsize, by unfold WrBuffer.sndlen; omega, ?_⟩
  unfold sendHead
  dsimp only
  split <;> exact ⟨rfl, rfl, rfl⟩

/-- The next number is the one behind everything sent, so `sndseq_max` goes on with it. -/
theorem Counted.sendHead {wrb : WrBuffer B} {rest : List (WrBuffer B)} {stream : List B}
    (counted : Counted conn.isn conn high)
    (placed : Placed conn.isn conn.sent (wrb :: rest) conn.unackedQ stream)
    (order : InOrder conn.isn conn.sent (wrb :: rest)) :
    Counted conn.isn (sendHead conn wrb rest).1 high := by
  have room := placed.room
  have noWrap := placed.noWrap
  obtain ⟨len, short, sent, txUnacked, sndseqMax⟩ := sendHead_numbers conn wrb rest
  obtain ⟨count, above, below, max⟩ := counted
  rw [order.sndseq] at sndseqMax
  have behind : (Tcp.sendHead conn wrb rest).1.sndseqMax = conn.isn + conn.sent + BitVec.ofNat 32 len := by
    rw [sndseqMax]
    dsimp only
    split
    · rfl
    · bv_omega
  constructor
  · rw [txUnacked, behind]
    bv_omega
  · exact above
  · rw [sent]
    bv_omega
  · left
    rw [behind, sent, BitVec.add_assoc]

theorem input_numbers (buffers : cfg.writeBuffers = true) {env : Env}
    (established : conn.state = .established)
    (stays : (input cfg env conn seg).1.state = .established) :
    (input cfg env conn seg).1.sndseqMax = conn.sndseqMax ∧
      (input cfg env conn seg).1.txUnacked.toNat =
        if Reads cfg conn seg then conn.sndseqMax.toNat - seg.ackno.toNat
        else conn.txUnacked.toNat := by
  obtain ⟨-, txUnacked, sndseqMax⟩ := (input_acking cfg env established seg).2 stays
  rw [looked_eq] at txUnacked sndseqMax
  by_cases reads : Reads cfg conn seg
  · rw [if_pos (by exact reads), acknowledge, if_pos (by exact reads.2)] at txUnacked sndseqMax
    simp only [unackseq, Config.unackedCount, buffers, established, if_true] at txUnacked
    refine ⟨sndseqMax, ?_⟩
    rw [if_pos reads, txUnacked]
    split <;> bv_omega
  · rw [if_neg (by exact reads)] at txUnacked sndseqMax
    exact ⟨sndseqMax, by rw [if_neg reads, txUnacked]⟩

theorem Counted.segment (buffers : cfg.writeBuffers = true) {adv : Seq × ℕ}
    (inv : WindowInv isn s.conn s.stream s.outs adv) (counted : Counted isn s.conn s.high)
    (established : s.conn.state = .established) {env : Env}
    (ordered : Ordered cfg isn s (.input env seg))
    (stays : (input cfg env s.conn seg).1.state = .established) :
    Counted isn (input cfg env s.conn seg).1 (s.next cfg (.input env seg)).high := by
  obtain ⟨ack, acks, ordered⟩ := ordered
  obtain ⟨sndseqMax, txUnacked⟩ := input_numbers buffers established stays
  have sent : (input cfg env s.conn seg).1.sent = s.conn.sent := by
    rcases (input_acking cfg env established seg).1 with ⟨state, -⟩ | ⟨same, -⟩ | ⟨same, -⟩
    · exact absurd stays state
    · exact same.sent
    · exact same.sent
  obtain ⟨count, above, below, max⟩ := counted
  rw [inv.high] at acks
  have high : (s.next cfg (.input env seg)).high = Max.max s.high seg.ackno.toNat := by
    simp [AckState.next, ack]
  rw [high]
  constructor
  · rw [sndseqMax, txUnacked]
    split at ordered
    · next reads => rw [if_pos reads, Nat.max_eq_right ordered]
    · next skips =>
      rw [if_neg skips]
      by_cases unacked : 0 < s.conn.txUnacked
      · rw [Nat.max_eq_left (ordered.2 unacked), count]
      · bv_omega
  · omega
  · rw [sent]
    bv_omega
  · rw [sndseqMax, sent]
    exact max

theorem Counted.step (buffers : cfg.writeBuffers = true) {adv : Seq × ℕ}
    (inv : WindowInv isn s.conn s.stream s.outs adv) (counted : Counted isn s.conn s.high)
    (established : s.conn.state = .established) {event : Event B}
    (ordered : Ordered cfg isn s event) (steady : (s.next cfg event).steady = true)
    (stays : (step cfg s.conn event).1.state = .established) :
    Counted isn (s.next cfg event).conn (s.next cfg event).high := by
  cases event with
  | input env seg => exact counted.segment buffers inv established ordered stays
  | poll env =>
    rcases poll_sending env established with ⟨state, -⟩ | ⟨same, numbers, -⟩ |
      ⟨wrb, rest, flags, writeQ, same, numbers, -⟩
    · exact absurd stays state
    · exact numbers.counted same.sent counted
    · obtain ⟨rfl, numbered, order, -⟩ := inv
      rw [Numbered, writeQ] at numbered
      rw [writeQ] at order
      exact numbers.counted same.sent (counted.sendHead numbered order)
  | timeout env => cases steady
  | send data =>
    have same : (send s.conn data).sent = s.conn.sent ∧ SameNumbers s.conn (send s.conn data) := by
      unfold send
      split <;> exact ⟨rfl, rfl, rfl, rfl⟩
    exact same.2.counted same.1 counted
  | recvfrom buflen =>
    have same : (recvfrom s.conn buflen).sent = s.conn.sent ∧
        SameNumbers s.conn (recvfrom s.conn buflen) := by
      unfold recvfrom
      dsimp only
      split <;> exact ⟨rfl, rfl, rfl, rfl⟩
    exact same.2.counted same.1 counted
  | stopWaiting | close => exact { counted with }

theorem Ordered.plain {event : Event B} (ordered : Ordered cfg isn s event)
    (steady : (s.next cfg event).steady = true) : Plain isn s.outs event := by
  cases event with
  | input env seg => exact ⟨ordered.1, ordered.2.1⟩
  | timeout env => cases steady
  | send data => exact ordered
  | poll | recvfrom | stopWaiting | close => trivial

theorem AckState.steady_of_next {event : Event B} (steady : (s.next cfg event).steady = true) :
    s.steady = true := by
  cases event with
  | timeout env => cases steady
  | input | poll | send | recvfrom | stopWaiting | close => exact steady

theorem AckRun.counted (buffers : cfg.writeBuffers = true) (run : AckRun cfg isn (Ordered cfg isn) s)
    (noWrap : isn.toNat + s.stream.length < 2 ^ 32 - 1)
    (established : s.conn.state = .established) (steady : s.steady = true) :
    ∃ adv, WindowInv isn s.conn s.stream s.outs adv ∧ Counted isn s.conn s.high := by
  induction run with
  | @start conn isn_ _ sent writeQ unackedQ txUnacked sndseqMax =>
    have run : WindowRun cfg isn conn [] [] (isn, conn.winsize) :=
      .start isn_ established sent writeQ unackedQ
    refine ⟨_, run.inv noWrap established, ?_, le_rfl, by simp, .inr ⟨sndseqMax, sent⟩⟩
    simp [txUnacked, sndseqMax]
  | @step s before was event ordered ih =>
    have shorter : isn.toNat + s.stream.length < 2 ^ 32 - 1 := by
      simp only [AckState.next, length_append] at noWrap
      omega
    obtain ⟨adv, inv, counted⟩ := ih shorter was (AckState.steady_of_next steady)
    exact ⟨_, inv.step was (ordered.plain steady) noWrap established,
      counted.step buffers inv was ordered steady established⟩
  | probe => cases steady

theorem AckRun.una_le (run : AckRun cfg isn (Ordered cfg isn) s) : s.una ≤ s.high := by
  induction run with
  | start => exact le_rfl
  | @step s before was event ordered ih =>
    cases event with
    | input env seg =>
      obtain ⟨ack, -, ordered⟩ := ordered
      simp only [AckState.next, ack, if_true]
      split
      · next reads =>
        rw [acknowledge, if_pos reads.2]
        exact Nat.le_max_right ..
      · omega
    | poll | timeout | send | recvfrom | stopWaiting | close => exact ih
  | probe before garbage ih => exact ih

/-- The connection before anything is sent. -/
def idle : AckState ℕ := ⟨peerConnected, true, [], [], 1001, 1001⟩

/-- A segment arrives. -/
def hear (s : AckState ℕ) (seg : Segment ℕ) : AckState ℕ :=
  s.next buffered (.input ⟨true, true⟩ seg)

/-- Four bytes are sent, from number 1001 on. -/
def fourBytes : AckState ℕ :=
  (idle.next buffered (.send [1, 2, 3, 4])).next buffered (.poll ⟨true, true⟩)

theorem fourBytes_run {ok : AckState ℕ → Event ℕ → Prop} (sends : ok idle (.send [1, 2, 3, 4]))
    (polls : ∀ s, ok s (.poll ⟨true, true⟩)) : AckRun buffered 1001 ok fourBytes := by
  have start : AckRun buffered 1001 ok idle :=
    .start (by decide) (by decide) (by decide) (by decide) (by decide) (by decide) (by decide)
  exact (start.step (by decide) _ sends).step (by decide) _ (polls _)

/-- A segment of the peer that was received before, with an acknowledgment of one byte. -/
def oldData : Segment ℕ := { pureAck 1002 with seqno := 5000, payload := [7] }

end NuttxRtos.Tcp
