import NuttxRtos.Tcp.Callbacks

/-!
# Acknowledgments of our SYN and FIN

Five transitions of the state machine wait for our SYN or FIN to be acknowledged. The code takes
them on `TCP_ACKDATA`, which says that a segment had the ACK bit while something was outstanding.
-/

namespace NuttxRtos.Tcp

variable {B : Type} {cfg : Config} {env : Env} {conn : Conn B} {seg : Segment B}

/-- The transitions that need our SYN or FIN acknowledged. -/
def NeedsAck : State → State → Prop
  | .synRcvd, .established => True
  | .synSent, .established => True
  | .finWait1, .finWait2 => True
  | .finWait1, .timeWait => True
  | .closing, .timeWait => True
  | .lastAck, .closed => True
  | _, _ => False

/-- The segment acknowledges our SYN or FIN. -/
def AcksControl (conn : Conn B) (seg : Segment B) : Prop :=
  seg.ctl.ack = true ∧ seg.ackno = conn.ctlseq + 1

/-- A segment makes the connection take one of these transitions only if it acknowledges our SYN
or FIN. -/
def OnlyWhenAcked (cfg : Config) (env : Env) (conn : Conn B) (seg : Segment B) : Prop :=
  NeedsAck conn.state (input cfg env conn seg).1.state → AcksControl conn seg

/-- The segment gets to the place where acknowledgments are looked at, and something is
outstanding. -/
def CountsAsAck (conn : Conn B) (seg : Segment B) : Prop :=
  seg.ctl.rst = false ∧ inSequence conn seg ∧ seg.ctl.ack = true ∧ 0 < conn.txUnacked

/-- What the code asks for before it takes a transition. In `TCP_FIN_WAIT_1` that is a count of
zero, in the width of `tx_unacked`. -/
def TakesTransition (cfg : Config) (env : Env) (conn : Conn B) (seg : Segment B) : Prop :=
  match conn.state with
  | .synRcvd => CountsAsAck conn seg ∧ env.accepts = true
  | .synSent => CountsAsAck conn seg ∧ seg.ctl = { syn := true, ack := true }
  | .finWait1 => CountsAsAck conn seg ∧ seg.ackno ≤ unackseq cfg conn ∧
      cfg.unackedCount (unackseq cfg conn - seg.ackno) = 0
  | .closing => CountsAsAck conn seg
  | .lastAck => seg.ctl.rst = true ∨ CountsAsAck conn seg
  | _ => False

/-! ## Reachable connections -/

/-- A close is pending only on a connection that was established. -/
def ControlInv (conn : Conn B) : Prop :=
  conn.state = .synRcvd ∨ conn.state = .synSent → conn.closing = false

theorem ControlInv.of_state {conn : Conn B} (state : State) (same : conn.state = state)
    (other : state ≠ .synRcvd ∧ state ≠ .synSent) : ControlInv conn := by
  subst same
  exact fun handshake => handshake.elim (absurd · other.1) (absurd · other.2)

theorem appsend_inv (established : conn.state = .established) (result : Flags) (snd : List B) :
    ControlInv (appsend conn result snd).1 := by
  unfold appsend
  split
  · exact .of_state .closed rfl (by decide)
  split
  · exact .of_state .finWait1 rfl (by decide)
  · exact .of_state .established established (by decide)

theorem respond_inv (established : conn.state = .established) (flags : Flags) (ackno : Seq)
    (data : List B) : ControlInv (respond env conn flags ackno data).1 :=
  appsend_inv ((callback_frame env conn flags ackno data).state.trans established) _ _

theorem callback_inv (state : State) (same : conn.state = state)
    (other : state ≠ .synRcvd ∧ state ≠ .synSent) (flags : Flags) (ackno : Seq) (data : List B) :
    ControlInv (callback env conn flags ackno data).1 :=
  .of_state state ((callback_frame env conn flags ackno data).state.trans same) other

theorem accepted_state : (conn.accepted cfg seg).state = .established := by
  unfold Conn.accepted
  split <;> rfl

theorem accepted_closing : (conn.accepted cfg seg).closing = conn.closing := by
  unfold Conn.accepted
  split <;> rfl

theorem connected_state : (conn.connected cfg seg).state = .established := by
  unfold Conn.connected
  split <;> rfl

theorem inputSynRcvd_inv (inv : ControlInv conn) (acked : Bool) :
    ControlInv (inputSynRcvd cfg env conn acked seg).1 := by
  unfold inputSynRcvd
  split
  · split
    · exact .of_state .closed rfl (by decide)
    split
    · exact respond_inv accepted_state _ _ _
    · refine respond_inv ?_ _ _ _
      exact accepted_state
  · split <;> exact inv

theorem inputSynSent_inv (acked : Bool) : ControlInv (inputSynSent cfg env conn acked seg).1 := by
  unfold inputSynSent
  split
  · exact respond_inv connected_state _ _ _
  · exact .of_state .closed rfl (by decide)

theorem inputData_inv (established : conn.state = .established) (acked : Bool) :
    ControlInv (inputData env conn acked seg).1 := by
  unfold inputData
  dsimp only
  split
  · refine appsend_inv ?_ _ _
    have same : ∀ flags data,
        (callback env (conn.advance (urglen seg)) flags seg.ackno data).1.state = .established :=
      fun flags data => (callback_frame env _ flags _ data).state.trans established
    split
    · rw [Conn.advance_state, same]
    · exact same _ _
  · exact .of_state .established established (by decide)

theorem inputFinWait1_inv (inv : ControlInv conn) (acked : Bool) :
    ControlInv (inputFinWait1 env conn acked seg).1 := by
  unfold inputFinWait1
  dsimp only
  split
  · split
    · exact callback_inv .timeWait rfl (by decide) _ _ _
    · exact callback_inv .closing rfl (by decide) _ _ _
  split
  · exact .of_state .finWait2 rfl (by decide)
  · split <;> exact inv

theorem inputFinWait2_inv (state : conn.state = .finWait2) :
    ControlInv (inputFinWait2 env conn seg).1 := by
  unfold inputFinWait2
  split
  · exact callback_inv .timeWait rfl (by decide) _ _ _
  · split <;> exact .of_state .finWait2 state (by decide)

theorem inputState_inv (inv : ControlInv conn) (acked : Bool) :
    ControlInv (inputState cfg env conn acked seg).1 := by
  unfold inputState
  split
  · exact inputSynRcvd_inv inv acked
  · exact inputSynSent_inv acked
  · next established =>
    split
    · exact .of_state .lastAck rfl (by decide)
    · exact inputData_inv established acked
  · split
    · exact callback_inv .closed rfl (by decide) _ _ _
    · exact inv
  · exact inputFinWait1_inv inv acked
  · next state => exact inputFinWait2_inv state
  · exact inv
  · split
    · exact .of_state .timeWait rfl (by decide)
    · exact inv
  · exact inv
  · exact inv

theorem acknowledge_frame (cfg : Config) (conn : Conn B) (seg : Segment B) :
    ∃ txUnacked sndseq, (acknowledge cfg conn seg).1 = { conn with txUnacked, sndseq } := by
  unfold acknowledge
  split <;> exact ⟨_, _, rfl⟩

theorem input_inv (inv : ControlInv conn) (seg : Segment B) :
    ControlInv (input cfg env conn seg).1 := by
  unfold input
  dsimp only
  split
  · split
    · exact .of_state .closed rfl (by decide)
    · exact callback_inv .closed rfl (by decide) _ _ _
  split
  · exact inv
  obtain ⟨txUnacked, sndseq, same⟩ := acknowledge_frame cfg { conn with winsize := seg.wnd } seg
  refine inputState_inv ?_ _
  rw [same]
  exact inv

theorem poll_inv (inv : ControlInv conn) : ControlInv (poll env conn).1 := by
  unfold poll
  split
  · next established => exact respond_inv established _ _ _
  · exact inv

theorem timeout_inv (inv : ControlInv conn) : ControlInv (timeout cfg env conn).1 := by
  have timedOut : ControlInv (callback env { conn with state := .closed, stopped := false }
      { timedout := true } 0 []).1 := callback_inv .closed rfl (by decide) _ _ _
  unfold timeout
  dsimp only
  split
  · exact timedOut
  split
  · exact inv
  split
  · exact .of_state .closed rfl (by decide)
  split
  · exact timedOut
  split
  case h_3 established =>
    refine callback_inv .established ?_ (by decide) _ _ _
    exact established
  all_goals exact inv

theorem Reachable.controlInv (reachable : Reachable cfg conn) : ControlInv conn := by
  induction reachable with
  | connect iss mss | accept iss irs mss => exact fun _ => rfl
  | step before event ih =>
    cases event with
    | input env seg => exact input_inv ih seg
    | poll env => exact poll_inv ih
    | timeout env => exact timeout_inv ih
    | send data =>
      simp only [Tcp.step, send]
      split <;> exact ih
    | recvfrom buflen =>
      simp only [Tcp.step, recvfrom]
      split <;> exact ih
    | stopWaiting => exact ih
    | close =>
      intro handshake
      simp only [Tcp.step, Tcp.close] at handshake ⊢
      rw [ih handshake]
      rcases handshake with state | state <;> simp [state]
  | probe before garbage ih =>
    unfold Tcp.probe
    split <;> exact ih
  | unbuffered _ _ _ _ _ ih => exact ih

/-! ## Which segments take the transitions -/

theorem acknowledge_acked (cfg : Config) (conn : Conn B) (seg : Segment B) :
    (acknowledge cfg conn seg).2 = true ↔ seg.ctl.ack = true ∧ 0 < conn.txUnacked := by
  unfold acknowledge
  split
  · next h => exact iff_of_true rfl h
  · next h => exact iff_of_false (by simp) h

/-- Outside of ESTABLISHED a number above `unackseq` leaves the count as it is. -/
theorem acknowledge_txUnacked (notEstablished : conn.state ≠ .established)
    (counts : seg.ctl.ack = true ∧ 0 < conn.txUnacked) :
    (acknowledge cfg conn seg).1.txUnacked = 0 ↔ seg.ackno ≤ unackseq cfg conn ∧
      cfg.unackedCount (unackseq cfg conn - seg.ackno) = 0 := by
  simp only [acknowledge, if_pos counts, if_neg notEstablished]
  obtain ⟨-, outstanding⟩ := counts
  split
  · next within => rw [and_iff_right within]
  · next above =>
    refine iff_of_false (fun zero => ?_) fun taken => above taken.1
    rw [zero] at outstanding
    exact absurd outstanding (by decide)

theorem input_processed (noReset : seg.ctl.rst = false)
    (notEstablished : conn.state ≠ .established) (expected : inSequence conn seg) :
    input cfg env conn seg =
      inputState cfg env (acknowledge cfg { conn with winsize := seg.wnd } seg).1
        (acknowledge cfg { conn with winsize := seg.wnd } seg).2 seg := by
  have noProbe : isProbe cfg { conn with winsize := seg.wnd } seg = false := by
    simp [isProbe, notEstablished]
  have expected' : inSequence { conn with winsize := seg.wnd } seg := expected
  simp [input, noReset, noProbe, expected']

theorem input_reset (isReset : seg.ctl.rst = true) :
    (input cfg env conn seg).1.state = .closed := by
  simp only [input, isReset, if_true]
  split
  · rfl
  · exact (callback_frame env _ _ _ _).state

theorem needsAck_self (state : State) : ¬ NeedsAck state state := by
  cases state <;> exact id

theorem inputSynRcvd_taken (state : conn.state = .synRcvd) (notClosing : conn.closing = false)
    (acked : Bool) :
    NeedsAck .synRcvd (inputSynRcvd cfg env conn acked seg).1.state ↔
      acked = true ∧ env.accepts = true := by
  unfold inputSynRcvd
  cases acked
  · simp only [Bool.false_eq_true, if_false, false_and, iff_false]
    split
    all_goals
      rw [state]
      exact needsAck_self _
  cases accepts : env.accepts
  · simp [NeedsAck]
  have notClosing' : (conn.accepted cfg seg).closing = false :=
    accepted_closing.trans notClosing
  simp only [if_true, not_true, if_false, and_self, iff_true]
  split
  · rw [respond_state env notClosing' rfl rfl, accepted_state]
    trivial
  have notClosing'' : ((conn.accepted cfg seg).advance seg.data.length).closing = false :=
    notClosing'
  rw [respond_state env notClosing'' rfl rfl, Conn.advance_state, accepted_state]
  trivial

theorem inputSynSent_taken (notClosing : conn.closing = false) (acked : Bool) :
    NeedsAck .synSent (inputSynSent cfg env conn acked seg).1.state ↔
      acked = true ∧ seg.ctl = { syn := true, ack := true } := by
  unfold inputSynSent
  split
  · next taken =>
    refine iff_of_true ?_ taken
    have notClosing' : (conn.connected cfg seg).closing = false := by
      rw [← notClosing, Conn.connected]
      split <;> rfl
    rw [respond_state env notClosing' rfl rfl, connected_state]
    trivial
  · next notTaken => exact iff_of_false id notTaken

theorem inputFinWait1_taken (state : conn.state = .finWait1) (acked : Bool) :
    NeedsAck .finWait1 (inputFinWait1 env conn acked seg).1.state ↔
      acked = true ∧ conn.txUnacked = 0 := by
  unfold inputFinWait1
  dsimp only
  split
  · rw [(callback_frame env _ _ _ _).state]
    split
    · next taken => exact iff_of_true trivial taken
    · next notTaken => exact iff_of_false id notTaken
  split
  · next taken => exact iff_of_true trivial taken
  next notTaken =>
  refine iff_of_false ?_ notTaken
  split <;> rw [Conn.advance_state, state] <;> exact needsAck_self _

/-- The transitions are taken on exactly the segments that the code asks for. -/
theorem needsAck_iff_takes (inv : ControlInv conn) :
    NeedsAck conn.state (input cfg env conn seg).1.state ↔ TakesTransition cfg env conn seg := by
  cases isReset : seg.ctl.rst with
  | true =>
    rw [input_reset isReset]
    cases state : conn.state <;> simp [NeedsAck, TakesTransition, CountsAsAck, state, isReset]
  | false =>
    by_cases unexpected : ¬ inSequence conn seg
    · have : ¬ inSequence { conn with winsize := seg.wnd } seg := unexpected
      rw [show (input cfg env conn seg).1.state = conn.state by simp [input, isReset, this]]
      refine iff_of_false (needsAck_self _) ?_
      cases state : conn.state <;> simp [TakesTransition, CountsAsAck, state, isReset, unexpected]
    have expected : inSequence conn seg := Decidable.not_not.1 unexpected
    generalize start : { conn with winsize := seg.wnd } = conn'
    obtain ⟨txUnacked, sndseq, frame⟩ := acknowledge_frame cfg conn' seg
    have counts : CountsAsAck conn seg ↔ (acknowledge cfg conn' seg).2 = true := by
      subst start
      rw [acknowledge_acked]
      exact ⟨fun h => h.2.2, fun h => ⟨isReset, expected, h⟩⟩
    have state' : (acknowledge cfg conn' seg).1.state = conn.state := by
      subst start
      rw [frame]
    have closing : (acknowledge cfg conn' seg).1.closing = conn.closing := by
      subst start
      rw [frame]
    have processed : conn.state ≠ .established → input cfg env conn seg =
        inputState cfg env (acknowledge cfg conn' seg).1 (acknowledge cfg conn' seg).2 seg := by
      subst start
      exact fun h => input_processed isReset h expected
    cases state : conn.state
    case closed | allocated | established | finWait2 | timeWait =>
      simp [TakesTransition, NeedsAck, state]
    all_goals
      rw [state] at state'
      rw [processed (by simp [state])]
      simp only [inputState, state', TakesTransition, state, counts]
    case synRcvd => exact inputSynRcvd_taken state' (closing.trans (inv (.inl state))) _
    case synSent => exact inputSynSent_taken (closing.trans (inv (.inr state))) _
    case finWait1 =>
      rw [inputFinWait1_taken state']
      refine and_congr_right fun acked => ?_
      subst start
      exact acknowledge_txUnacked (by simp [state]) ((acknowledge_acked cfg _ seg).1 acked)
    case lastAck =>
      simp only [isReset, Bool.false_eq_true, false_or]
      split
      · next acked =>
        rw [(callback_frame env _ _ _ _).state]
        exact iff_of_true trivial acked
      next notAcked =>
      rw [state']
      exact iff_of_false id notAcked
    case closing =>
      split
      · next acked => exact iff_of_true trivial acked
      next notAcked =>
      rw [state']
      exact iff_of_false id notAcked

/-- From every reachable state: one of the five transitions is taken only on an acknowledgment of
our SYN or FIN, if and only if a segment that meets what the code asks for is one. -/
theorem transitions_need_ack_iff (reachable : Reachable cfg conn) (env : Env) (seg : Segment B) :
    OnlyWhenAcked cfg env conn seg ↔ (TakesTransition cfg env conn seg → AcksControl conn seg) := by
  rw [OnlyWhenAcked, needsAck_iff_takes reachable.controlInv]

/-! ## A forged acknowledgment -/

/-- Write buffers without keep-alive. -/
def buffered : Config where
  writeBuffers := true
  keepalive := false

/-- A segment without data that acknowledges something. -/
def pureAck (ackno : Seq) : Segment ℕ where
  ctl := { ack := true }
  seqno := 5001
  ackno := ackno
  wnd := 1000
  urgp := 0
  mss := none
  options := []
  payload := []

/-- Our SYN has the number 1000, so 1001 acknowledges it. A segment with any other number completes
the handshake as well. -/
theorem forged_ack_establishes :
    Reachable buffered (allocAccept 1000 5000 536 : Conn ℕ) ∧
      (input buffered ⟨true, true⟩ (allocAccept 1000 5000 536) (pureAck 77)).1.state =
        .established ∧
      ¬ OnlyWhenAcked buffered ⟨true, true⟩ (allocAccept 1000 5000 536) (pureAck 77) := by
  have established : (input buffered ⟨true, true⟩ (allocAccept 1000 5000 536)
      (pureAck 77)).1.state = .established := by decide
  refine ⟨.accept _ _ _, established, fun only => ?_⟩
  have acks := (only (by rw [established]; trivial)).2
  exact absurd acks (by decide)

/-- The right acknowledgment. -/
theorem transitions_need_ack_synack :
    TakesTransition buffered ⟨true, true⟩ (allocAccept 1000 5000 536) (pureAck 1001) ∧
      OnlyWhenAcked buffered ⟨true, true⟩ (allocAccept 1000 5000 536) (pureAck 1001) := by
  have acks : AcksControl (allocAccept 1000 5000 536) (pureAck 1001) := ⟨rfl, rfl⟩
  refine ⟨⟨⟨rfl, by decide, rfl, by decide⟩, rfl⟩, ?_⟩
  exact (transitions_need_ack_iff (.accept 1000 5000 536) ⟨true, true⟩ (pureAck 1001)).2
    fun _ => acks

end NuttxRtos.Tcp
