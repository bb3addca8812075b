import Mathlib.Data.List.Basic
import NuttxRtos.Tcp.Receive

/-!
# Sequence numbers that are shifted

Adding a constant to our sequence numbers and to the acknowledgments of the peer should change a
run by that shift and nothing else. The code compares the numbers as they are, and takes two of
them for marks: `(unsigned)-1` for a buffer without a number and 0 for the initial `sndseq_max`.
-/

namespace NuttxRtos.Tcp

open List WrBuffer

variable {B : Type} {k : Seq}

/-! ## Shifts -/

/-- The number of a write buffer, which may have none. -/
def shiftNumber (k seqno : Seq) : Seq := if seqno = unassigned then unassigned else seqno + k

/-- A number that is 0 as long as it is not set. -/
def shiftSet (k number : Seq) : Seq := if number = 0 then 0 else number + k

/-- The number of a write buffer is shifted. -/
@[simps]
def WrBuffer.shift (k : Seq) (wrb : WrBuffer B) : WrBuffer B :=
  { wrb with seqno := shiftNumber k wrb.seqno }

/-- All of our sequence numbers in a connection. -/
@[simps]
def Conn.shift (k : Seq) (conn : Conn B) : Conn B :=
  { conn with
    sndseq := conn.sndseq + k
    isn := shiftSet k conn.isn
    sndseqMax := shiftSet k conn.sndseqMax
    ctlseq := conn.ctlseq + k
    writeQ := conn.writeQ.map (WrBuffer.shift k)
    unackedQ := conn.unackedQ.map (WrBuffer.shift k) }

/-- What the peer acknowledges is shifted. -/
@[simps]
def Segment.shift (k : Seq) (seg : Segment B) : Segment B := { seg with ackno := seg.ackno + k }

@[simp] theorem Segment.shift_data (k : Seq) (seg : Segment B) : (seg.shift k).data = seg.data := rfl

/-- Our number in a segment is shifted. -/
def Output.shift (k : Seq) (out : Output B) : Output B := { out with seqno := out.seqno + k }

/-- A segment of the peer is shifted; other events have no numbers. -/
def Event.shift (k : Seq) : Event B → Event B
  | .input env seg => .input env (seg.shift k)
  | event => event

/-- The connection and the segments that are sent are shifted. -/
def shiftResult (k : Seq) (result : Conn B × List (Output B)) : Conn B × List (Output B) :=
  (result.1.shift k, result.2.map (Output.shift k))

theorem ite_shift {c : Prop} [Decidable c] {x y x' y' : Conn B × List (Output B)}
    (pos : c → x' = shiftResult k x) (neg : ¬c → y' = shiftResult k y) :
    (if c then x' else y') = shiftResult k (if c then x else y) := by
  split
  · next holds => exact pos holds
  · next fails => exact neg fails

/-! ## Numbers that stay below the end -/

/-- Neither the number nor the shifted one is a mark, and nothing wraps between them. -/
def Low (k number : Seq) : Prop := 0 < number.toNat ∧ number.toNat + k.toNat < 2 ^ 32 - 1

/-- The same for the numbers of all bytes of a buffer, if it has one. -/
def WrBuffer.Low (k : Seq) (wrb : WrBuffer B) : Prop :=
  wrb.sent ≤ wrb.data.length ∧ (wrb.seqno ≠ unassigned →
    0 < wrb.seqno.toNat ∧ wrb.seqno.toNat + wrb.data.length + k.toNat < 2 ^ 32 - 1)

/-- A buffer that has been sent. -/
def WrBuffer.LowSent (k : Seq) (wrb : WrBuffer B) : Prop := wrb.Low k ∧ wrb.seqno ≠ unassigned

/-- All of our numbers in a connection, and those that its buffers without a number would get. -/
structure LowConn (k : Seq) (conn : Conn B) : Prop where
  sndseq : conn.sndseq.toNat + k.toNat < 2 ^ 32 - 1
  sndseqMax : conn.sndseqMax.toNat + k.toNat < 2 ^ 32 - 1
  writeQ : ∀ wrb ∈ conn.writeQ, wrb.Low k
  unackedQ : ∀ wrb ∈ conn.unackedQ, wrb.LowSent k
  fresh : ∀ wrb ∈ conn.writeQ, wrb.seqno = unassigned → 0 < conn.isn.toNat ∧
    conn.isn.toNat + conn.sent.toNat + wrb.data.length + k.toNat < 2 ^ 32 - 1

/-- The next number of a connection. -/
abbrev Conn.Below (k : Seq) (conn : Conn B) : Prop := conn.sndseq.toNat + k.toNat < 2 ^ 32 - 1

/-- In a step nothing wraps: neither the numbers of the connection nor an acknowledgment, nor the
length of a write buffer. -/
def LowStep (k : Seq) (conn : Conn B) : Event B → Prop
  | .input _ seg => LowConn k conn ∧ (seg.ctl.ack = true → Low k seg.ackno)
  | .send data => LowConn k conn ∧ data.length < 2 ^ 16
  | _ => LowConn k conn

instance (k : Seq) (wrb : WrBuffer B) : Decidable (wrb.Low k) :=
  inferInstanceAs (Decidable (_ ∧ (_ → _ ∧ _)))

instance (k : Seq) (wrb : WrBuffer B) : Decidable (wrb.LowSent k) :=
  inferInstanceAs (Decidable (_ ∧ _))

variable {number : Seq}

theorem Low.ne_unassigned (low : Low k number) : number ≠ unassigned := by
  obtain ⟨-, low⟩ := low
  unfold unassigned
  bv_omega

theorem shiftNumber_low (low : Low k number) :
    shiftNumber k number = number + k := if_neg low.ne_unassigned

theorem shiftSet_low (low : Low k number) : shiftSet k number = number + k := by
  refine if_neg ?_
  obtain ⟨positive, -⟩ := low
  bv_omega

theorem low_add_lt {a b : Seq} (la : a.toNat + k.toNat < 2 ^ 32 - 1)
    (lb : b.toNat + k.toNat < 2 ^ 32 - 1) : a + k < b + k ↔ a < b := by
  bv_omega

variable {wrb : WrBuffer B}

theorem WrBuffer.Low.low (low : wrb.Low k) (number : wrb.seqno ≠ unassigned) :
    Tcp.Low k wrb.seqno := by
  obtain ⟨positive, below⟩ := low.2 number
  exact ⟨positive, by omega⟩

/-- The order is the same as before; a mark for no number is last. -/
theorem shiftNumber_lt {number' : Seq} (low : number ≠ unassigned → Low k number)
    (low' : number' ≠ unassigned → Low k number') :
    shiftNumber k number < shiftNumber k number' ↔ number < number' := by
  unfold shiftNumber Low unassigned at *
  split <;> split <;> bv_omega

/-! ## Write buffers -/

variable {queue : List (WrBuffer B)}

theorem insertSegment_shift (low : wrb.Low k) (lows : ∀ other ∈ queue, other.Low k) :
    insertSegment (wrb.shift k) (queue.map (shift k)) =
      (insertSegment wrb queue).map (shift k) := by
  induction queue with
  | nil => rfl
  | cons head rest ih =>
    have ih := ih fun other mem => lows other (mem_cons_of_mem head mem)
    have less := shiftNumber_lt (lows head mem_cons_self).low low.low
    simp only [map_cons, insertSegment, shift_seqno, less, ih]
    split <;> rfl

variable {ackno : Seq}

theorem WrBuffer.trim_shift (number : wrb.seqno ≠ unassigned)
    (low : Tcp.Low k ackno) : (wrb.shift k).trim (ackno + k) = (wrb.trim ackno).shift k := by
  have same : ackno + k - (wrb.seqno + k) = ackno - wrb.seqno := by bv_omega
  have shifted : shiftNumber k wrb.seqno = wrb.seqno + k := if_neg number
  simp only [WrBuffer.trim, WrBuffer.shift, shifted, same, shiftNumber_low low]

theorem unassigned_not_lt (ackno : Seq) : ¬ unassigned < ackno := by
  unfold unassigned
  bv_omega

theorem WrBuffer.shift_lt_ackno (low : wrb.Low k)
    (lowAck : Tcp.Low k ackno) : (wrb.shift k).seqno < ackno + k ↔ wrb.seqno < ackno := by
  rw [← shiftNumber_low lowAck]
  exact shiftNumber_lt low.low fun _ => lowAck

theorem WrBuffer.acked_shift (low : wrb.Low k) (lowAck : Tcp.Low k ackno) :
    (wrb.shift k).acked (ackno + k) = (wrb.acked ackno).map (shift k) := by
  unfold WrBuffer.acked
  by_cases above : wrb.seqno < ackno
  · rw [if_pos above, if_pos ((shift_lt_ackno low lowAck).2 above)]
    have number : wrb.seqno ≠ unassigned := fun h => unassigned_not_lt ackno (h ▸ above)
    have last : (wrb.shift k).seqno + BitVec.ofNat 32 (wrb.shift k).data.length ≤ ackno + k ↔
        wrb.seqno + BitVec.ofNat 32 wrb.data.length ≤ ackno := by
      obtain ⟨-, below⟩ := low.2 number
      obtain ⟨-, belowAck⟩ := lowAck
      simp only [WrBuffer.shift, shiftNumber, if_neg number]
      bv_omega
    simp only [last]
    split
    · rfl
    · rw [trim_shift number lowAck]
      rfl
  · rw [if_neg above, if_neg (mt (shift_lt_ackno low lowAck).1 above)]
    rfl

theorem filterMap_acked_shift (lows : ∀ wrb ∈ queue, wrb.Low k) (lowAck : Low k ackno) :
    (queue.map (shift k)).filterMap (WrBuffer.acked (ackno + k)) =
      (queue.filterMap (WrBuffer.acked ackno)).map (shift k) := by
  rw [filterMap_map, map_filterMap]
  apply filterMap_congr
  intro wrb mem
  exact acked_shift (lows wrb mem) lowAck

theorem ackHead_shift (lows : ∀ wrb ∈ queue, wrb.Low k) (lowAck : Low k ackno) :
    ackHead (ackno + k) (queue.map (shift k)) =
      (ackHead ackno queue).map (shift k) := by
  cases queue with
  | nil => rfl
  | cons wrb rest =>
    have same := shift_lt_ackno (lows wrb mem_cons_self) lowAck
    rw [map_cons, ackHead, ackHead, map_cons]
    have cond : (0 < (wrb.shift k).sent ∧ (wrb.shift k).seqno < ackno + k) ↔
        0 < wrb.sent ∧ wrb.seqno < ackno := and_congr .rfl same
    simp only [cond]
    split
    · next acked =>
      have number : wrb.seqno ≠ unassigned := fun h => unassigned_not_lt ackno (h ▸ acked.2)
      rw [trim_shift number lowAck]
    · rfl

variable {conn : Conn B}

theorem ackBuffers_shift (low : LowConn k conn) (lowAck : Low k ackno) :
    ackBuffers (conn.shift k) (ackno + k) = (ackBuffers conn ackno).shift k := by
  have unacked := filterMap_acked_shift (fun wrb mem => (low.unackedQ wrb mem).1) lowAck
  have head := ackHead_shift low.writeQ lowAck
  simp only [ackBuffers, Conn.shift, unacked, head]

/-! ## Retransmissions -/

theorem takeOff_le (count : Seq) (sent : ℕ) : (takeOff count sent).toNat ≤ count.toNat := by
  unfold takeOff
  split
  · bv_omega
  · exact Nat.zero_le _

theorem WrBuffer.Low.again (low : wrb.Low k) : wrb.again.Low k :=
  ⟨Nat.zero_le _, low.2⟩

theorem mem_insertSegment {other : WrBuffer B}
    (mem : other ∈ insertSegment wrb queue) : other = wrb ∨ other ∈ queue := by
  induction queue with
  | nil => exact .inl (mem_singleton.1 mem)
  | cons head rest ih =>
    unfold insertSegment at mem
    split at mem
    · rcases mem_cons.1 mem with rfl | mem
      · exact .inr mem_cons_self
      · exact (ih mem).imp_right (mem_cons_of_mem head)
    · exact mem_cons.1 mem

variable {conn' : Conn B}

theorem LowConn.retransmit (low : LowConn k conn)
    (sndseq : conn'.sndseq = conn.sndseq) (sndseqMax : conn'.sndseqMax = conn.sndseqMax)
    (isn : conn'.isn = conn.isn) (sent : conn'.sent.toNat ≤ conn.sent.toNat)
    (writeQ : ∀ wrb ∈ conn'.writeQ, wrb.Low k ∧ (wrb.seqno = unassigned → 0 < conn.isn.toNat ∧
        conn.isn.toNat + conn.sent.toNat + wrb.data.length + k.toNat < 2 ^ 32 - 1))
    (unackedQ : ∀ wrb ∈ conn'.unackedQ, wrb.LowSent k) : LowConn k conn' := by
  refine ⟨by rw [sndseq]; exact low.sndseq, by rw [sndseqMax]; exact low.sndseqMax,
    fun wrb mem => (writeQ wrb mem).1, unackedQ, fun wrb mem new => ?_⟩
  obtain ⟨positive, below⟩ := (writeQ wrb mem).2 new
  rw [isn]
  exact ⟨positive, by omega⟩

theorem rexmitHead_shift (conn : Conn B) : rexmitHead (conn.shift k) = (rexmitHead conn).shift k := by
  unfold rexmitHead
  cases writeQ : conn.writeQ with
  | nil => simp [writeQ]
  | cons wrb rest =>
    simp only [Conn.shift_writeQ, writeQ, map_cons, shift_sent, shift_nrtx]
    split
    · split <;> rfl
    · rfl

theorem LowConn.rexmitHead (low : LowConn k conn) : LowConn k (rexmitHead conn) := by
  unfold Tcp.rexmitHead
  split
  · exact low
  next head rest writeQ =>
  have headLow := low.writeQ head (by simp [writeQ])
  have tail : ∀ wrb ∈ rest, wrb ∈ conn.writeQ := by
    intro wrb mem
    simp [writeQ, mem]
  split
  · split
    · exact low.retransmit rfl rfl rfl (takeOff_le _ _)
        (fun wrb mem => ⟨low.writeQ wrb (tail wrb mem), low.fresh wrb (tail wrb mem)⟩) low.unackedQ
    refine low.retransmit rfl rfl rfl (takeOff_le _ _) (fun wrb mem => ?_) low.unackedQ
    rcases mem_cons.1 mem with rfl | mem
    · exact ⟨headLow.again, low.fresh head (by simp [writeQ])⟩
    · exact ⟨low.writeQ wrb (tail wrb mem), low.fresh wrb (tail wrb mem)⟩
  · exact low

theorem requeue_shift (lowWrb : wrb.Low k) (low : LowConn k conn) :
    requeue (wrb.shift k) (conn.shift k) = (requeue wrb conn).shift k := by
  have insert := insertSegment_shift lowWrb.again low.writeQ
  unfold requeue
  rw [shift_nrtx]
  split
  · rfl
  · simp only [Conn.shift, takeBack, ← insert]
    rfl

theorem LowConn.requeue (lowWrb : wrb.LowSent k) (low : LowConn k conn) :
    LowConn k (requeue wrb conn) := by
  unfold Tcp.requeue
  split
  · exact low.retransmit rfl rfl rfl (takeOff_le _ _)
      (fun other mem => ⟨low.writeQ other mem, low.fresh other mem⟩) low.unackedQ
  refine low.retransmit rfl rfl rfl (takeOff_le _ _) (fun other mem => ?_) low.unackedQ
  rcases mem_insertSegment mem with rfl | mem
  · exact ⟨lowWrb.1.again, fun new => absurd new lowWrb.2⟩
  · exact ⟨low.writeQ other mem, low.fresh other mem⟩

theorem foldr_requeue_shift (lows : ∀ wrb ∈ queue, wrb.LowSent k) (low : LowConn k conn) :
    LowConn k (queue.foldr requeue conn) ∧
      (queue.map (shift k)).foldr requeue (conn.shift k) =
        (queue.foldr requeue conn).shift k := by
  induction queue with
  | nil => exact ⟨low, rfl⟩
  | cons wrb rest ih =>
    obtain ⟨after, same⟩ := ih fun other mem => lows other (mem_cons_of_mem wrb mem)
    have head := lows wrb mem_cons_self
    rw [map_cons, foldr_cons, foldr_cons, same]
    exact ⟨after.requeue head, requeue_shift head.1 after⟩

theorem rexmitBuffers_shift (low : LowConn k conn) :
    LowConn k (rexmitBuffers conn) ∧
      rexmitBuffers (conn.shift k) = (rexmitBuffers conn).shift k := by
  have low' : LowConn k { rexmitHead conn with unackedQ := [] } := by
    have head := low.rexmitHead
    exact { head with unackedQ := by simp }
  obtain ⟨after, same⟩ := foldr_requeue_shift low.unackedQ low'
  refine ⟨after, ?_⟩
  unfold rexmitBuffers
  rw [rexmitHead_shift, ← same]
  rfl

/-! ## Transmissions -/

/-- The largest number sent so far, where 0 says that nothing has been sent. -/
theorem sndseqMax_shift {max predicted sndseq : Seq} (lowMax : max.toNat + k.toNat < 2 ^ 32 - 1)
    (lowPredicted : Low k predicted) (lowSndseq : sndseq.toNat + k.toNat < 2 ^ 32 - 1) :
    (if shiftSet k max < predicted + k ∨ predicted + k < sndseq + k then predicted + k
      else shiftSet k max) =
      shiftSet k (if max < predicted ∨ predicted < sndseq then predicted else max) := by
  have above : shiftSet k max < predicted + k ↔ max < predicted := by
    obtain ⟨positive, below⟩ := lowPredicted
    unfold shiftSet
    split
    · bv_omega
    · exact low_add_lt lowMax below
  simp only [above, low_add_lt lowPredicted.2 lowSndseq]
  split
  · rw [shiftSet_low lowPredicted]
  · rfl

theorem sendHead_shift (low : LowConn k conn) {rest : List (WrBuffer B)}
    (writeQ : conn.writeQ = wrb :: rest) :
    (sendHead conn wrb rest).1.Below k ∧
      sendHead (conn.shift k) (wrb.shift k) (rest.map (shift k)) =
        ((sendHead conn wrb rest).1.shift k, (sendHead conn wrb rest).2) := by
  have lowWrb := low.writeQ wrb (by simp [writeQ])
  -- the number of the head, shifted
  have number : (wrb.shift k).numbered (conn.shift k) = wrb.numbered conn + k ∧
      0 < (wrb.numbered conn).toNat ∧
      (wrb.numbered conn).toNat + wrb.data.length + k.toNat < 2 ^ 32 - 1 := by
    unfold WrBuffer.numbered
    by_cases new : wrb.seqno = unassigned
    · obtain ⟨positive, below⟩ := low.fresh wrb (by simp [writeQ]) new
      have isn : Low k conn.isn := ⟨positive, by omega⟩
      have shifted : (wrb.shift k).seqno = unassigned := if_pos new
      rw [if_pos new, if_pos shifted]
      simp only [Conn.shift, shiftSet_low isn]
      bv_omega
    obtain ⟨positive, below⟩ := lowWrb.2 new
    have shifted : (wrb.shift k).seqno = wrb.seqno + k := if_neg new
    have notMark : (wrb.shift k).seqno ≠ unassigned := by
      unfold unassigned
      bv_omega
    rw [if_neg new, if_neg notMark, shifted]
    exact ⟨rfl, positive, below⟩
  have short : wrb.sent + wrb.sndlen conn.mss conn.winsize ≤ wrb.data.length := by
    have := lowWrb.1
    unfold WrBuffer.sndlen
    omega
  unfold sendHead
  rw [number.1, show (wrb.shift k).sndlen (conn.shift k).mss (conn.shift k).winsize =
    wrb.sndlen conn.mss conn.winsize from rfl]
  generalize wrb.sndlen conn.mss conn.winsize = len at *
  generalize wrb.numbered conn = n at *
  obtain ⟨-, positive, below⟩ := number
  have seq : n + k + BitVec.ofNat 32 wrb.sent = n + BitVec.ofNat 32 wrb.sent + k := by bv_omega
  have predicted : n + BitVec.ofNat 32 wrb.sent + k + BitVec.ofNat 32 len =
      n + BitVec.ofNat 32 wrb.sent + BitVec.ofNat 32 len + k := by bv_omega
  have lowPredicted : Low k (n + BitVec.ofNat 32 wrb.sent + BitVec.ofNat 32 len) := by
    unfold Low
    bv_omega
  have lowSndseq : (n + BitVec.ofNat 32 wrb.sent).toNat + k.toNat < 2 ^ 32 - 1 := by bv_omega
  have max := sndseqMax_shift low.sndseqMax lowPredicted lowSndseq
  have lowN : Low k n := ⟨positive, by omega⟩
  have lowSent : WrBuffer.Low k { wrb with seqno := n, sent := wrb.sent + len } :=
    ⟨short, fun _ => ⟨positive, below⟩⟩
  have inserted := insertSegment_shift lowSent (fun other mem => (low.unackedQ other mem).1)
  simp only [WrBuffer.shift, shiftNumber_low lowN] at inserted
  simp only [Conn.shift, WrBuffer.shift, seq, predicted, max]
  split
  · exact ⟨lowSndseq, by simp only [← inserted]⟩
  · exact ⟨lowSndseq, by simp only [map_cons, WrBuffer.shift, shiftNumber_low lowN]⟩

/-! ## Callbacks -/

/-- A callback on a shifted connection: the result is shifted, and its `sndseq` does not wrap. -/
def Follows (k : Seq) (result shifted : Conn B × Flags × List B) : Prop :=
  result.1.sndseq.toNat + k.toNat < 2 ^ 32 - 1 ∧ shifted = (result.1.shift k, result.2)

variable {result shifted : Conn B × Flags × List B}

theorem Follows.quiet (follows : Follows k result shifted) :
    (shifted.1, []) = shiftResult k (result.1, []) := by
  rw [follows.2]
  rfl

theorem Follows.answer (follows : Follows k result shifted) (ctl : Ctl) :
    (shifted.1, [output shifted.1 ctl []]) =
      shiftResult k (result.1, [output result.1 ctl []]) := by
  rw [follows.2]
  rfl

theorem transmit_shift (low : LowConn k conn) (flags : Flags) :
    Follows k (transmit conn flags) (transmit (conn.shift k) flags) := by
  unfold transmit
  rw [Conn.shift_state, Conn.shift_winsize, Conn.shift_writeQ]
  split
  · cases writeQ : conn.writeQ with
    | nil => exact ⟨low.sndseq, rfl⟩
    | cons wrb rest =>
      obtain ⟨sndseq, same⟩ := sendHead_shift low writeQ
      simp only [map_cons, same]
      exact ⟨sndseq, rfl⟩
  · exact ⟨low.sndseq, rfl⟩

variable {flags : Flags}

theorem transmit_quiet (quiet : flags.poll = false ∧ flags.rexmit = false)
    (conn : Conn B) : transmit conn flags = (conn, flags, []) := by
  rw [transmit, if_neg (by simp [quiet])]

/-- The events under which a callback follows the shift. Numbers are looked at only on an
acknowledgment, a poll or a retransmission. -/
structure ShiftSafe (k : Seq) (conn : Conn B) (flags : Flags) (ackno ackno' : Seq) : Prop where
  below : conn.sndseq.toNat + k.toNat < 2 ^ 32 - 1
  low : flags.ackdata = true ∨ flags.poll = true ∨ flags.rexmit = true → LowConn k conn
  quiet : flags.ackdata = true → flags.poll = false ∧ flags.rexmit = false
  ackno : flags.ackdata = true → Low k ackno ∧ ackno' = ackno + k

variable {ackno' : Seq}

theorem sendEventhandler_shift (safe : ShiftSafe k conn flags ackno ackno') :
    Follows k (sendEventhandler conn flags ackno) (sendEventhandler (conn.shift k) flags ackno') := by
  unfold sendEventhandler
  rw [Conn.shift_sndcb]
  split
  · exact ⟨safe.below, rfl⟩
  split
  · next acked =>
    obtain ⟨lowAck, rfl⟩ := safe.ackno acked
    have quiet := safe.quiet acked
    rw [transmit_quiet quiet, transmit_quiet quiet, ackBuffers_shift (safe.low (.inl acked)) lowAck]
    exact ⟨safe.below, rfl⟩
  split
  · exact ⟨safe.below, rfl⟩
  split
  · next again =>
    obtain ⟨after, same⟩ := rexmitBuffers_shift (safe.low (.inr (.inr again)))
    rw [same]
    exact transmit_shift after flags
  next notAgain =>
  by_cases poll : flags.poll = true
  · exact transmit_shift (safe.low (.inr (.inl poll))) flags
  have quiet : flags.poll = false ∧ flags.rexmit = false := by
    simpa using And.intro poll notAgain
  rw [transmit_quiet quiet, transmit_quiet quiet]
  exact ⟨safe.below, rfl⟩

variable (env : Env)

section

variable (conn : Conn B) (flags : Flags) (data : List B)

theorem recvEventhandler_shift : recvEventhandler env (conn.shift k) flags data =
      ((recvEventhandler env conn flags data).1.shift k,
        (recvEventhandler env conn flags data).2) := by
  unfold recvEventhandler
  rw [Conn.shift_receiver]
  split
  · rfl
  split
  · unfold newdata datahandler
    dsimp only
    split <;> split <;> (try split) <;> rfl
  · rfl

theorem closeEventhandler_shift : closeEventhandler (conn.shift k) flags data =
      ((closeEventhandler conn flags data).1.shift k, (closeEventhandler conn flags data).2) := by
  have empty : (conn.shift k).writeQ ≠ [] ↔ conn.writeQ ≠ [] := by simp [Conn.shift]
  unfold closeEventhandler
  simp only [Conn.shift_closing, Conn.shift_txUnacked, empty]
  split
  · rfl
  split
  · rfl
  split
  · rfl
  split <;> rfl

theorem dataEvent_shift : dataEvent env (conn.shift k) flags data =
      ((dataEvent env conn flags data).1.shift k, (dataEvent env conn flags data).2) := by
  unfold dataEvent datahandler
  dsimp only
  split
  · rfl
  split <;> rfl

end

section

variable (safe : ShiftSafe k conn flags ackno ackno')
include safe

theorem ShiftSafe.congr {flags' : Flags} (sndseq : conn'.sndseq = conn.sndseq)
    (low : LowConn k conn → LowConn k conn') (ackdata : flags'.ackdata = flags.ackdata)
    (poll : flags'.poll = flags.poll) (rexmit : flags'.rexmit = flags.rexmit) :
    ShiftSafe k conn' flags' ackno ackno' := by
  refine ⟨sndseq ▸ safe.below, ?_, ?_, ?_⟩
  all_goals rw [ackdata]
  · rw [poll, rexmit]
    exact fun h => low (safe.low h)
  · rw [poll, rexmit]
    exact safe.quiet
  · exact safe.ackno

theorem deliver_shift (data : List B) : Follows k (deliver env conn flags ackno data)
      (deliver env (conn.shift k) flags ackno' data) := by
  unfold deliver
  rw [recvEventhandler_shift]
  obtain ⟨readahead, received, receiver, hrecv⟩ := recvEventhandler_frame env conn flags data
  obtain ⟨newdata, sndack, hflags⟩ := recvEventhandler_flags env conn flags data
  generalize recvEventhandler env conn flags data = taken at hrecv hflags
  obtain ⟨connR, flagsR, dataR⟩ := taken
  dsimp only at hrecv hflags ⊢
  have safeR : ShiftSafe k connR flagsR ackno ackno' := by
    rw [hrecv, hflags]
    exact safe.congr rfl (fun low => { low with }) rfl rfl rfl
  obtain ⟨sndseq, same⟩ := sendEventhandler_shift safeR
  rw [same]
  generalize sendEventhandler connR flagsR ackno = sent at sndseq
  obtain ⟨connS, flagsS, snd⟩ := sent
  split
  · rw [dataEvent_shift]
    refine ⟨?_, rfl⟩
    obtain ⟨readahead', hdata⟩ := dataEvent_frame env connS flagsS dataR
    rw [hdata]
    exact sndseq
  · exact ⟨sndseq, rfl⟩

theorem callback_shift (data : List B) : Follows k (callback env conn flags ackno data)
      (callback env (conn.shift k) flags ackno' data) := by
  unfold callback
  rw [closeEventhandler_shift]
  obtain ⟨closing, hclose⟩ := closeEventhandler_frame conn flags data
  have sender := closeEventhandler_flags conn flags data
  generalize closeEventhandler conn flags data = closed at hclose sender
  obtain ⟨connC, flagsC, dataC⟩ := closed
  dsimp only at hclose sender ⊢
  refine deliver_shift env ?_ dataC
  rw [hclose]
  exact safe.congr rfl (fun low => { low with }) sender.ackdata sender.poll sender.rexmit

end

/-! ## Answers -/

theorem finish_shift (below : conn.Below k) (state : State) :
    (conn.shift k).finish state = (conn.finish state).shift k := by
  have max : shiftSet k (conn.sndseq + 1) = conn.sndseq + k + 1 := by
    have notZero : conn.sndseq + 1 ≠ 0 := by bv_omega
    rw [shiftSet, if_neg notZero]
    bv_omega
  simp only [Conn.finish, Conn.enter, Conn.shift, max]

theorem rexmit_shift (conn : Conn B) (result : Flags) (snd : List B) :
    rexmit (conn.shift k) result snd = (rexmit conn result snd).map (Output.shift k) := by
  unfold rexmit
  split
  · rfl
  split <;> rfl

theorem appsend_shift (below : conn.Below k) (result : Flags)
    (snd : List B) : appsend (conn.shift k) result snd = shiftResult k (appsend conn result snd) := by
  unfold appsend
  split
  · rfl
  split
  · rw [finish_shift below]
    rfl
  · rw [rexmit_shift]
    rfl

theorem respond_shift (safe : ShiftSafe k conn flags ackno ackno') (data : List B) :
    respond env (conn.shift k) flags ackno' data =
      shiftResult k (respond env conn flags ackno data) := by
  obtain ⟨below, same⟩ := callback_shift env safe data
  unfold respond
  rw [same]
  exact appsend_shift below _ _

/-! ## Input -/

variable {cfg : Config} {seg : Segment B}

theorem acknowledge_shift (buffers : cfg.writeBuffers = true) (low : LowConn k conn)
    (lowAck : seg.ctl.ack = true → Low k seg.ackno) :
    LowConn k (acknowledge cfg conn seg).1 ∧
      ((acknowledge cfg conn seg).2 = true → seg.ctl.ack = true) ∧
      acknowledge cfg (conn.shift k) (seg.shift k) =
        ((acknowledge cfg conn seg).1.shift k, (acknowledge cfg conn seg).2) := by
  unfold acknowledge
  rw [Segment.shift_ctl, Conn.shift_txUnacked, Conn.shift_state]
  split
  · next acks =>
    obtain ⟨positive, below⟩ := lowAck acks.1
    have sndseqMax := low.sndseqMax
    have max : unackseq cfg conn = conn.sndseqMax ∧
        unackseq cfg (conn.shift k) = shiftSet k conn.sndseqMax := by
      simp [unackseq, buffers, Conn.shift]
    have within : seg.ackno + k ≤ shiftSet k conn.sndseqMax ↔ seg.ackno ≤ conn.sndseqMax := by
      unfold shiftSet
      split
      · bv_omega
      · bv_omega
    have left : seg.ackno ≤ conn.sndseqMax →
        shiftSet k conn.sndseqMax - (seg.ackno + k) = conn.sndseqMax - seg.ackno := by
      intro le
      have notZero : conn.sndseqMax ≠ 0 := by bv_omega
      rw [shiftSet, if_neg notZero]
      bv_omega
    refine ⟨{ low with sndseq := below }, fun _ => acks.1, ?_⟩
    rw [max.1, max.2]
    simp only [Segment.shift, within]
    split
    · next le =>
      rw [left le]
      rfl
    · split <;> rfl
  · exact ⟨low, nofun, rfl⟩

theorem LowConn.advance (low : LowConn k conn) (len : ℕ) : LowConn k (conn.advance len) :=
  { low with }

theorem ShiftSafe.none (below : conn.Below k)
    (noAck : flags.ackdata = false) (noPoll : flags.poll = false) (noRexmit : flags.rexmit = false)
    (ackno ackno' : Seq) : ShiftSafe k conn flags ackno ackno' := by
  refine ⟨below, ?_, ?_, ?_⟩ <;> simp [noAck, noPoll, noRexmit]

variable {acked : Bool}

section

variable (low : LowConn k conn) (lowAck : acked = true → Low k seg.ackno)

include low lowAck

theorem ShiftSafe.segment (ackdata : flags.ackdata = acked)
    (quiet : flags.poll = false ∧ flags.rexmit = false) :
    ShiftSafe k conn flags seg.ackno (seg.shift k).ackno :=
  ⟨low.sndseq, fun _ => low, fun _ => quiet, fun h => ⟨lowAck (ackdata ▸ h), rfl⟩⟩

theorem inputFin_shift :
    inputFin env (conn.shift k) acked (seg.shift k) =
      shiftResult k (inputFin env conn acked seg) := by
  have safe : ShiftSafe k (conn.advance (seg.data.length + 1))
      { ackdata := acked, close := true, newdata := !seg.data.isEmpty } seg.ackno
      (seg.shift k).ackno := .segment (low.advance _) lowAck rfl ⟨rfl, rfl⟩
  obtain ⟨below, same⟩ := callback_shift env safe seg.data
  have called : callback env ((conn.shift k).advance ((seg.shift k).data.length + 1))
      { ackdata := acked, close := true, newdata := !(seg.shift k).data.isEmpty }
      (seg.shift k).ackno (seg.shift k).data = _ := same
  unfold inputFin
  dsimp only
  rw [called, finish_shift below]
  rfl

theorem inputData_shift :
    inputData env (conn.shift k) acked (seg.shift k) =
      shiftResult k (inputData env conn acked seg) := by
  unfold inputData
  dsimp only
  rw [show urglen (seg.shift k) = urglen seg from rfl, show (seg.shift k).data = seg.data from rfl,
    show ((conn.shift k).advance (urglen seg)) = (conn.advance (urglen seg)).shift k from rfl,
    show ((conn.advance (urglen seg)).shift k).stopped = (conn.advance (urglen seg)).stopped from rfl]
  generalize (!(seg.data.drop (urglen seg)).isEmpty && !(conn.advance (urglen seg)).stopped) = fresh
  split
  · have safe : ShiftSafe k (conn.advance (urglen seg)) { ackdata := acked, newdata := fresh }
        seg.ackno (seg.shift k).ackno := .segment (low.advance _) lowAck rfl ⟨rfl, rfl⟩
    obtain ⟨below, same⟩ := callback_shift env safe (seg.data.drop (urglen seg))
    rw [same]
    generalize callback env (conn.advance (urglen seg)) _ _ _ = called at below
    obtain ⟨conn', result, snd⟩ := called
    split
    · have below' : (conn'.advance (seg.data.drop (urglen seg)).length).Below k := below
      exact appsend_shift below' result snd
    · exact appsend_shift below result snd
  · rfl

end

section

variable (buffers : cfg.writeBuffers = true)

include buffers

theorem accepted_shift (lowAck : Low k seg.ackno) :
    (conn.shift k).accepted cfg (seg.shift k) = (conn.accepted cfg seg).shift k := by
  simp only [Conn.accepted, buffers, if_true, Conn.enter, Conn.shift, Segment.shift,
    shiftSet_low lowAck]
  rfl

theorem connected_shift (lowAck : Low k seg.ackno) :
    (conn.shift k).connected cfg (seg.shift k) = (conn.connected cfg seg).shift k := by
  simp only [Conn.connected, buffers, if_true, Conn.enter, Conn.shift, Segment.shift,
    shiftSet_low lowAck]

theorem inputSynRcvd_shift (env : Env) (conn : Conn B) (lowAck : acked = true → Low k seg.ackno) :
    inputSynRcvd cfg env (conn.shift k) acked (seg.shift k) =
      shiftResult k (inputSynRcvd cfg env conn acked seg) := by
  unfold inputSynRcvd
  rw [Segment.shift_data, Segment.shift_ctl]
  split
  · next isAcked =>
    have low := lowAck isAcked
    have below : (conn.accepted cfg seg).Below k := by
      simp only [Conn.accepted, buffers, if_true]
      exact low.2
    rw [accepted_shift buffers low]
    split
    · rfl
    split
    · exact respond_shift env (.none below rfl rfl rfl _ _) []
    · have below' : ((conn.accepted cfg seg).advance seg.data.length).Below k := below
      exact respond_shift env (.none below' rfl rfl rfl _ _) seg.data
  split <;> rfl

theorem inputSynSent_shift (env : Env) (below : conn.Below k)
    (lowAck : acked = true → Low k seg.ackno) :
    inputSynSent cfg env (conn.shift k) acked (seg.shift k) =
      shiftResult k (inputSynSent cfg env conn acked seg) := by
  unfold inputSynSent
  rw [Segment.shift_data, Segment.shift_ctl]
  split
  · next isAcked =>
    have low := lowAck isAcked.1
    have below : (conn.connected cfg seg).Below k := by
      simp only [Conn.connected, buffers, if_true]
      exact low.2
    rw [connected_shift buffers low]
    exact respond_shift env (.none below rfl rfl rfl _ _) []
  obtain ⟨-, same⟩ := callback_shift env (.none below (show ({ abort := true } : Flags).ackdata =
    false from rfl) rfl rfl seg.ackno (seg.shift k).ackno) seg.data
  rw [same]
  rfl

end

theorem callback_close_shift (conn : Conn B) (below : conn.Below k)
    (seg : Segment B) : Follows k (callback env conn { close := true } seg.ackno seg.data)
      (callback env (conn.shift k) { close := true } (seg.shift k).ackno seg.data) :=
  callback_shift env (.none below rfl rfl rfl _ _) seg.data

theorem inputFinWait1_shift (below : conn.Below k)
    (acked : Bool) (seg : Segment B) :
    inputFinWait1 env (conn.shift k) acked (seg.shift k) =
      shiftResult k (inputFinWait1 env conn acked seg) := by
  refine ite_shift (fun _ => ?_) fun _ => ite_shift (fun _ => rfl) fun _ =>
    ite_shift (fun _ => rfl) fun _ => rfl
  have called (state : State) : Follows k _ _ := callback_close_shift env
    (((conn.advance seg.data.length).enter state).advance 1) below seg
  exact (called _).answer { ack := true }

theorem inputFinWait2_shift (below : conn.Below k)
    (seg : Segment B) :
    inputFinWait2 env (conn.shift k) (seg.shift k) = shiftResult k (inputFinWait2 env conn seg) := by
  refine ite_shift (fun _ => ?_) fun _ => ite_shift (fun _ => rfl) fun _ => rfl
  exact (callback_close_shift env (((conn.advance seg.data.length).enter .timeWait).advance 1)
    below seg).answer { ack := true }

theorem inputState_shift (buffers : cfg.writeBuffers = true) (env : Env) (low : LowConn k conn)
    (lowAck : acked = true → Low k seg.ackno) :
    inputState cfg env (conn.shift k) acked (seg.shift k) =
      shiftResult k (inputState cfg env conn acked seg) := by
  unfold inputState
  rw [Conn.shift_state, Segment.shift_ctl, Conn.shift_stopped]
  split
  · exact inputSynRcvd_shift buffers env conn lowAck
  · exact inputSynSent_shift buffers env low.sndseq lowAck
  · split
    · exact inputFin_shift env low lowAck
    · exact inputData_shift env low lowAck
  · split
    · exact (callback_close_shift env (conn.enter .closed) low.sndseq seg).quiet
    · rfl
  · exact inputFinWait1_shift env low.sndseq acked seg
  · exact inputFinWait2_shift env low.sndseq seg
  · rfl
  · split <;> rfl
  · rfl
  · rfl

theorem input_shift (buffers : cfg.writeBuffers = true) (env : Env) (low : LowConn k conn)
    (lowAck : seg.ctl.ack = true → Low k seg.ackno) :
    input cfg env (conn.shift k) (seg.shift k) = shiftResult k (input cfg env conn seg) := by
  have low' : LowConn k { conn with winsize := seg.wnd } := { low with }
  obtain ⟨after, isAck, same⟩ := acknowledge_shift buffers low' lowAck
  refine ite_shift (fun _ => ite_shift (fun _ => rfl) fun _ => ?_) fun _ =>
    ite_shift (fun _ => rfl) fun _ => ?_
  · have below : (Conn.enter { conn with winsize := seg.wnd } .closed).Below k := low.sndseq
    have safe : ShiftSafe k (Conn.enter { conn with winsize := seg.wnd } .closed) { abort := true }
        seg.ackno (seg.shift k).ackno := .none below rfl rfl rfl _ _
    exact (callback_shift env safe seg.data).quiet
  have acked : (acknowledge cfg { conn with winsize := seg.wnd } seg).2 = true →
      Low k seg.ackno := fun h => lowAck (isAck h)
  exact Eq.trans (congrArg (fun r : Conn B × Bool => inputState cfg env r.1 r.2 (seg.shift k)) same)
    (inputState_shift buffers env after acked)

/-! ## Polls, timeouts and calls -/

theorem poll_shift (low : LowConn k conn) :
    poll env (conn.shift k) = shiftResult k (poll env conn) := by
  have safe : ShiftSafe k conn { poll := true } 0 0 :=
    ⟨low.sndseq, fun _ => low, nofun, nofun⟩
  exact ite_shift (fun _ => respond_shift env safe []) fun _ => rfl

theorem timeout_shift (low : LowConn k conn) :
    timeout cfg env (conn.shift k) = shiftResult k (timeout cfg env conn) := by
  have below : (conn.enter .closed).Below k := low.sndseq
  have safe : ShiftSafe k (conn.enter .closed) { timedout := true } 0 0 :=
    .none below rfl rfl rfl _ _
  have timedOut := callback_shift env safe []
  unfold timeout
  dsimp only
  refine ite_shift (fun _ => timedOut.quiet) fun _ => ite_shift (fun _ => rfl) fun _ =>
    ite_shift (fun _ => rfl) fun _ => ite_shift (fun _ => timedOut.answer _) fun _ => ?_
  rw [Conn.shift_state]
  split
  case h_3 =>
    have low' : LowConn k { conn with nrtx := conn.nrtx + 1 } := { low with }
    have safe' : ShiftSafe k { conn with nrtx := conn.nrtx + 1 } { rexmit := true } 0 0 :=
      ⟨low.sndseq, fun _ => low', nofun, nofun⟩
    obtain ⟨-, again⟩ := callback_shift env safe' []
    refine Eq.trans (congrArg (fun r : Conn B × Flags × List B => (r.1, rexmit r.1 r.2.1 r.2.2))
      again) ?_
    rw [rexmit_shift]
    rfl
  all_goals rfl

theorem send_shift (conn : Conn B) (data : List B) :
    send (conn.shift k) data = (send conn data).shift k := by
  unfold send
  rw [apply_ite (Conn.shift k)]
  refine ite_congr rfl (fun _ => ?_) (fun _ => rfl)
  simp [Conn.shift, WrBuffer.shift, shiftNumber]

theorem recvfrom_shift (conn : Conn B) (buflen : ℕ) :
    recvfrom (conn.shift k) buflen = (recvfrom conn buflen).shift k := by
  unfold recvfrom
  rw [apply_ite (Conn.shift k)]
  exact ite_congr rfl (fun _ => rfl) (fun _ => rfl)

theorem step_shift (buffers : cfg.writeBuffers = true) {event : Event B}
    (low : LowStep k conn event) :
    step cfg (conn.shift k) (event.shift k) = shiftResult k (step cfg conn event) := by
  cases event with
  | input env seg => exact input_shift buffers env low.1 low.2
  | poll env => exact poll_shift env low
  | timeout env => exact timeout_shift env low
  | send data => exact congrArg (·, ([] : List (Output B))) (send_shift conn data)
  | recvfrom buflen => exact congrArg (·, ([] : List (Output B))) (recvfrom_shift conn buflen)
  | stopWaiting | close => rfl

/-! ## Runs -/

/-- The connection and the segments handed to the device after each of some events. -/
def trace (cfg : Config) (conn : Conn B) : List (Event B) → List (Conn B × List (Output B))
  | [] => []
  | event :: rest => step cfg conn event :: trace cfg (step cfg conn event).1 rest

/-- Nothing wraps at any of some events. -/
def LowTrace (cfg : Config) (k : Seq) (conn : Conn B) : List (Event B) → Prop
  | [] => True
  | event :: rest => LowStep k conn event ∧ LowTrace cfg k (step cfg conn event).1 rest

/-- Two bytes are sent and acknowledged. -/
def twoBytes : List (Event ℕ) :=
  [.send [1, 2], .poll ⟨true, true⟩, .input ⟨true, true⟩ (pureAck 1003)]

end NuttxRtos.Tcp
