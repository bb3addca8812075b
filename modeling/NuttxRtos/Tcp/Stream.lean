import NuttxRtos.Tcp.Receive

/-!
# Sequence numbers of the bytes that are sent

A write buffer gets its sequence number when it is first sent, from the number of bytes sent so
far. That number names the place of its bytes in everything the application has sent.
-/

namespace NuttxRtos.Tcp

open List

variable {B : Type}

/-- The buffer holds the bytes of the stream at the place that its sequence number names. -/
def WrBuffer.At (isn : Seq) (stream : List B) (wrb : WrBuffer B) : Prop :=
  ∃ start, wrb.seqno = isn + BitVec.ofNat 32 start ∧
    wrb.data = (stream.drop start).take wrb.data.length ∧
    start + wrb.data.length ≤ stream.length ∧ wrb.sent ≤ wrb.data.length

def unsent (queue : List (WrBuffer B)) : ℕ := (queue.map fun wrb => wrb.data.length - wrb.sent).sum

def counted (queue : List (WrBuffer B)) : ℕ := (queue.map WrBuffer.sent).sum

/-- `write_q` holds buffers with a number, then buffers without, which are the end of the stream;
what was sent and what numbered buffers have left reaches up to there. -/
structure Split (isn : Seq) (stream : List B) (sent : Seq) (numbered fresh : List (WrBuffer B)) :
    Prop where
  placed : ∀ wrb ∈ numbered, wrb.At isn stream
  new : ∀ wrb ∈ fresh, wrb.seqno = unassigned ∧ wrb.sent = 0
  rest : (fresh.map WrBuffer.data).flatten = stream.drop (sent.toNat + unsent numbered)
  reaches : sent.toNat + unsent numbered ≤ stream.length

/-- Every buffer with a number is at its place, and the next number is right. -/
structure Placed (isn sent : Seq) (writeQ unackedQ : List (WrBuffer B)) (stream : List B) :
    Prop where
  noWrap : isn.toNat + stream.length < 2 ^ 32 - 1
  queue : ∃ numbered fresh, writeQ = numbered ++ fresh ∧ Split isn stream sent numbered fresh
  unacked : ∀ wrb ∈ unackedQ, wrb.At isn stream ∧ wrb.sent = wrb.data.length
  enough : counted writeQ + counted unackedQ ≤ sent.toNat

def Numbered (conn : Conn B) (stream : List B) : Prop :=
  Placed conn.isn conn.sent conn.writeQ conn.unackedQ stream

/-! ## Places in the stream -/

variable {ackno : Seq}

section Places

variable {isn : Seq} {stream : List B} {wrb : WrBuffer B}

theorem take_drop_append (more : List B) {start len : ℕ} (fits : start + len ≤ stream.length) :
    ((stream ++ more).drop start).take len = (stream.drop start).take len := by
  have : len ≤ (stream.drop start).length := by
    rw [length_drop]
    omega
  rw [drop_append_of_le_length (by omega), take_append_of_le_length this]

theorem WrBuffer.At.append (at_ : wrb.At isn stream) (more : List B) :
    wrb.At isn (stream ++ more) := by
  obtain ⟨start, seqno, data, le, sent⟩ := at_
  refine ⟨start, seqno, ?_, by simp; omega, sent⟩
  rwa [take_drop_append more le]

theorem WrBuffer.At.sent_le (at_ : wrb.At isn stream) : wrb.sent ≤ wrb.data.length := by
  obtain ⟨-, -, -, -, le⟩ := at_
  exact le

theorem WrBuffer.At.resent (at_ : wrb.At isn stream) : wrb.again.At isn stream := by
  obtain ⟨start, seqno, data, le, -⟩ := at_
  exact ⟨start, seqno, data, le, Nat.zero_le _⟩

section

variable (noWrap : isn.toNat + stream.length < 2 ^ 32 - 1)
include noWrap

theorem WrBuffer.At.toNat {start : ℕ}
    (le : start ≤ stream.length) : (isn + BitVec.ofNat 32 start).toNat = isn.toNat + start := by
  bv_omega

theorem WrBuffer.At.ne_unassigned
    (at_ : wrb.At isn stream) : wrb.seqno.toNat < unassigned.toNat := by
  obtain ⟨start, seqno, -, le, -⟩ := at_
  rw [seqno, toNat noWrap (by omega)]
  have : unassigned.toNat = 2 ^ 32 - 1 := by decide
  omega

/-- Acknowledged bytes are trimmed and the number goes on by as much, as long as no more is
acknowledged than was sent. -/
theorem WrBuffer.At.trim
    (at_ : wrb.At isn stream) (some : wrb.seqno < ackno)
    (sent : ackno.toNat ≤ wrb.seqno.toNat + wrb.sent) :
    (wrb.trim ackno).At isn stream ∧
      (wrb.trim ackno).data.length = wrb.data.length - (ackno.toNat - wrb.seqno.toNat) ∧
      (wrb.trim ackno).sent = wrb.sent - (ackno.toNat - wrb.seqno.toNat) := by
  obtain ⟨start, seqno, data, le, all⟩ := at_
  have number : wrb.seqno.toNat = isn.toNat + start := by
    rw [seqno, WrBuffer.At.toNat noWrap (by omega)]
  have len : (ackno - wrb.seqno).toNat = ackno.toNat - wrb.seqno.toNat := by bv_omega
  have trimmed : min (ackno - wrb.seqno).toNat wrb.sent = ackno.toNat - wrb.seqno.toNat := by
    omega
  simp only [WrBuffer.trim, trimmed, length_drop, and_true]
  refine ⟨start + (ackno.toNat - wrb.seqno.toNat), ?_, ?_, ?_, ?_⟩
  · have : ackno.toNat < 2 ^ 32 := ackno.isLt
    bv_omega
  · rw [length_drop]
    have dropped := congrArg (List.drop (ackno.toNat - wrb.seqno.toNat)) data
    rwa [drop_take, drop_drop] at dropped
  all_goals
    dsimp only
    rw [length_drop]
    omega

end

end Places

/-! ## Queues -/

section Queues

variable {isn : Seq} {stream : List B}

@[simp] theorem unsent_nil : unsent ([] : List (WrBuffer B)) = 0 := rfl

@[simp] theorem unsent_cons (wrb : WrBuffer B) (queue : List (WrBuffer B)) :
    unsent (wrb :: queue) = wrb.data.length - wrb.sent + unsent queue := by
  simp [unsent]

@[simp] theorem counted_nil : counted ([] : List (WrBuffer B)) = 0 := rfl

@[simp] theorem counted_cons (wrb : WrBuffer B) (queue : List (WrBuffer B)) :
    counted (wrb :: queue) = wrb.sent + counted queue := by
  simp [counted]

@[simp] theorem counted_append (queue rest : List (WrBuffer B)) :
    counted (queue ++ rest) = counted queue + counted rest := by
  simp [counted]

variable {queue queue' : List (WrBuffer B)}

theorem counted_perm (perm : queue.Perm queue') : counted queue = counted queue' :=
  (perm.map _).sum_nat

theorem insertSegment_perm (wrb : WrBuffer B) (queue : List (WrBuffer B)) :
    (insertSegment wrb queue).Perm (wrb :: queue) := by
  induction queue with
  | nil => exact .refl _
  | cons head rest ih =>
    unfold insertSegment
    split
    · exact (ih.cons head).trans (.swap wrb head rest)
    · exact .refl _

theorem insertSegment_numbered {wrb : WrBuffer B} (number : wrb.seqno.toNat < unassigned.toNat)
    (numbered : List (WrBuffer B)) {fresh : List (WrBuffer B)}
    (new : ∀ wrb ∈ fresh, wrb.seqno = unassigned ∧ wrb.sent = 0) :
    ∃ numbered', insertSegment wrb (numbered ++ fresh) = numbered' ++ fresh ∧
      numbered'.Perm (wrb :: numbered) := by
  induction numbered with
  | nil =>
    refine ⟨[wrb], ?_, .refl _⟩
    cases fresh with
    | nil => rfl
    | cons head rest =>
      have : head.seqno = unassigned := (new head mem_cons_self).1
      have notLess : ¬ head.seqno < wrb.seqno := by
        rw [this]
        exact Nat.not_lt.2 (Nat.le_of_lt number)
      simp [insertSegment, notLess]
  | cons head rest ih =>
    obtain ⟨numbered', eq, perm⟩ := ih
    simp only [cons_append, insertSegment]
    split
    · exact ⟨head :: numbered', by rw [eq]; rfl, (perm.cons head).trans (.swap wrb head rest)⟩
    · exact ⟨wrb :: head :: rest, rfl, .refl _⟩

theorem takeOff_toNat {count : Seq} {sent : ℕ} (le : sent ≤ count.toNat) :
    (takeOff count sent).toNat = count.toNat - sent := by
  unfold takeOff
  split
  · bv_omega
  · bv_omega

end Queues

/-! ## Sends and acknowledgments -/

variable {conn : Conn B} {isn sent : Seq} {writeQ unackedQ : List (WrBuffer B)} {stream : List B}

def WrBuffer.fresh (data : List B) : WrBuffer B := { seqno := unassigned, sent := 0, nrtx := 0, data }

variable {data : List B}

theorem Placed.send (inv : Placed isn sent writeQ unackedQ stream)
    (noWrap : isn.toNat + (stream ++ data).length < 2 ^ 32 - 1) :
    Placed isn sent (writeQ ++ [WrBuffer.fresh data]) unackedQ (stream ++ data) := by
  obtain ⟨numbered, fresh, rfl, split⟩ := inv.queue
  refine ⟨noWrap, ⟨numbered, fresh ++ [WrBuffer.fresh data], by simp,
    fun wrb mem => (split.placed wrb mem).append data, ?_, ?_, ?_⟩, ?_, ?_⟩
  · intro wrb mem
    rcases mem_append.1 mem with mem | mem
    · exact split.new wrb mem
    · rw [mem_singleton.1 mem]
      exact ⟨rfl, rfl⟩
  · rw [drop_append_of_le_length split.reaches, ← split.rest]
    simp [WrBuffer.fresh]
  · exact Nat.le_trans split.reaches (by simp)
  · intro wrb mem
    obtain ⟨placed, sent⟩ := inv.unacked wrb mem
    exact ⟨placed.append data, sent⟩
  · have := inv.enough
    simpa [WrBuffer.fresh] using this

/-- An acknowledgment goes at most to the end of what has been sent of the head of `write_q`, if
something of it has. -/
def AckWithinHead (writeQ : List (WrBuffer B)) (ackno : Seq) : Prop :=
  ∀ wrb ∈ writeQ.head?, 0 < wrb.sent → ackno.toNat ≤ wrb.seqno.toNat + wrb.sent

variable {wrb wrb' : WrBuffer B} {fresh queue : List (WrBuffer B)} {snd : List B} {seg : Segment B}
  {seqno : Seq} {cfg : Config}

theorem WrBuffer.At.acked (noWrap : isn.toNat + stream.length < 2 ^ 32 - 1)
    (placed : wrb.At isn stream) (sent : wrb.sent = wrb.data.length)
    (acked : wrb.acked ackno = some wrb') :
    wrb'.At isn stream ∧ wrb'.sent = wrb'.data.length ∧ wrb'.sent ≤ wrb.sent := by
  unfold WrBuffer.acked at acked
  split at acked
  · next less =>
    dsimp only at acked
    split at acked
    · cases acked
    next partly =>
    obtain ⟨start, seqno, data, le, all⟩ := placed
    have within : ackno.toNat ≤ wrb.seqno.toNat + wrb.sent := by bv_omega
    obtain ⟨trimmed, length, sent'⟩ :=
      WrBuffer.At.trim noWrap ⟨start, seqno, data, le, all⟩ less within
    cases acked
    exact ⟨trimmed, by omega, by omega⟩
  · cases acked
    exact ⟨placed, sent, Nat.le_refl _⟩

theorem Split.setHead {sent' : Seq} {rest : List (WrBuffer B)}
    (split : Split isn stream sent (wrb :: rest) fresh) (placed : wrb'.At isn stream)
    (same : sent'.toNat + (wrb'.data.length - wrb'.sent) = sent.toNat + (wrb.data.length - wrb.sent)) :
    Split isn stream sent' (wrb' :: rest) fresh := by
  have total : sent'.toNat + unsent (wrb' :: rest) = sent.toNat + unsent (wrb :: rest) := by
    rw [unsent_cons, unsent_cons]
    omega
  refine ⟨?_, split.new, total ▸ split.rest, total ▸ split.reaches⟩
  exact forall_mem_cons.2 ⟨placed, fun other mem => split.placed other (mem_cons_of_mem wrb mem)⟩

theorem counted_filterMap_le {f : WrBuffer B → Option (WrBuffer B)}
    (le : ∀ wrb ∈ queue, ∀ wrb', f wrb = some wrb' → wrb'.sent ≤ wrb.sent) :
    counted (queue.filterMap f) ≤ counted queue := by
  induction queue with
  | nil => exact Nat.le_refl _
  | cons head rest ih =>
    have ih := ih fun wrb mem => le wrb (mem_cons_of_mem head mem)
    cases h : f head with
    | none =>
      rw [filterMap_cons_none h, counted_cons]
      omega
    | some wrb' =>
      have := le head mem_cons_self wrb' h
      rw [filterMap_cons_some h, counted_cons, counted_cons]
      omega

theorem Split.ackHead {numbered : List (WrBuffer B)}
    (noWrap : isn.toNat + stream.length < 2 ^ 32 - 1) (split : Split isn stream sent numbered fresh)
    (within : AckWithinHead (numbered ++ fresh) ackno) :
    ∃ numbered', Tcp.ackHead ackno (numbered ++ fresh) = numbered' ++ fresh ∧
      Split isn stream sent numbered' fresh ∧
      counted (Tcp.ackHead ackno (numbered ++ fresh)) ≤ counted (numbered ++ fresh) := by
  cases numbered with
  | nil =>
    have none : Tcp.ackHead ackno fresh = fresh := by
      cases fresh with
      | nil => rfl
      | cons head rest => simp [Tcp.ackHead, (split.new head mem_cons_self).2]
    exact ⟨[], none, split, Nat.le_of_eq (congrArg counted none)⟩
  | cons head rest =>
    by_cases trims : 0 < head.sent ∧ head.seqno < ackno
    · have placed := split.placed head mem_cons_self
      have inHead := within head (by simp) trims.1
      obtain ⟨trimmed, length, sent'⟩ := placed.trim noWrap trims.2 inHead
      refine ⟨head.trim ackno :: rest, by simp [Tcp.ackHead, trims],
        split.setHead trimmed (by omega), ?_⟩
      simp [Tcp.ackHead, trims]
      omega
    · exact ⟨head :: rest, by simp [Tcp.ackHead, trims], split, by simp [Tcp.ackHead, trims]⟩

theorem Placed.ack (inv : Placed isn sent writeQ unackedQ stream)
    (within : AckWithinHead writeQ ackno) :
    Placed isn sent (ackHead ackno writeQ) (unackedQ.filterMap (WrBuffer.acked ackno)) stream := by
  obtain ⟨numbered, fresh, rfl, split⟩ := inv.queue
  obtain ⟨numbered', head, split', countedHead⟩ := split.ackHead inv.noWrap within
  have acked : ∀ wrb ∈ unackedQ, ∀ wrb', wrb.acked ackno = some wrb' →
      wrb'.At isn stream ∧ wrb'.sent = wrb'.data.length ∧ wrb'.sent ≤ wrb.sent := by
    intro wrb mem wrb' h
    obtain ⟨placed, all⟩ := inv.unacked wrb mem
    exact placed.acked inv.noWrap all h
  refine ⟨inv.noWrap, ⟨numbered', fresh, head, split'⟩, ?_, ?_⟩
  · intro wrb' mem
    obtain ⟨wrb, hwrb, h⟩ := mem_filterMap.1 mem
    obtain ⟨placed, all, -⟩ := acked wrb hwrb wrb' h
    exact ⟨placed, all⟩
  have unackedLe := counted_filterMap_le fun wrb mem wrb' h => (acked wrb mem wrb' h).2.2
  have := inv.enough
  omega

/-! ## Retransmissions -/

variable {rest : List (WrBuffer B)}

theorem Placed.againHead {head : WrBuffer B}
    (inv : Placed isn sent (head :: rest) unackedQ stream) (some : 0 < head.sent) :
    Placed isn (takeOff sent head.sent) (head.again :: rest) unackedQ stream := by
  obtain ⟨numbered, fresh, writeQ, split⟩ := inv.queue
  have enough := inv.enough
  rw [counted_cons] at enough
  have off : (takeOff sent head.sent).toNat = sent.toNat - head.sent := takeOff_toNat (by omega)
  cases numbered with
  | nil =>
    -- a buffer of which something was sent has a number
    rw [nil_append] at writeQ
    have := (split.new head (by simp [← writeQ])).2
    omega
  | cons head' rest' =>
    obtain ⟨rfl, rfl⟩ := List.cons.inj writeQ
    have placed := split.placed head mem_cons_self
    have le := placed.sent_le
    refine ⟨inv.noWrap, ⟨head.again :: rest', fresh, rfl, split.setHead placed.resent ?_⟩,
      inv.unacked, ?_⟩
    · simp only [off, WrBuffer.again]
      omega
    · simp only [counted_cons, WrBuffer.again]
      omega

theorem Placed.again (inv : Placed isn sent writeQ (unackedQ ++ [wrb]) stream) :
    Placed isn (takeOff sent wrb.sent) (insertSegment wrb.again writeQ) unackedQ stream := by
  obtain ⟨numbered, fresh, rfl, split⟩ := inv.queue
  obtain ⟨placed, all⟩ := inv.unacked wrb (by simp)
  have enough := inv.enough
  rw [counted_append unackedQ, counted_cons, counted_nil] at enough
  have off : (takeOff sent wrb.sent).toNat = sent.toNat - wrb.sent := takeOff_toNat (by omega)
  have number : wrb.again.seqno.toNat < unassigned.toNat := placed.resent.ne_unassigned inv.noWrap
  obtain ⟨numbered', inserted, perm⟩ := insertSegment_numbered number numbered split.new
  have same : (takeOff sent wrb.sent).toNat + unsent numbered' = sent.toNat + unsent numbered := by
    rw [off, unsent, (perm.map _).sum_nat, ← unsent, unsent_cons]
    simp only [WrBuffer.again]
    omega
  refine ⟨inv.noWrap, ⟨numbered', fresh, inserted, ?_, split.new, same ▸ split.rest,
    same ▸ split.reaches⟩, fun other mem => inv.unacked other (by simp [mem]), ?_⟩
  · intro other mem
    rcases mem_cons.1 (perm.mem_iff.1 mem) with rfl | mem
    · exact placed.resent
    · exact split.placed other mem
  have again := counted_perm (insertSegment_perm wrb.again (numbered ++ fresh))
  have zero : wrb.again.sent = 0 := rfl
  rw [counted_cons] at again
  omega

/-- No write buffer has been sent too often. -/
def NoneExpires (conn : Conn B) : Prop :=
  (∀ wrb ∈ conn.writeQ.head?, 0 < wrb.sent → wrb.nrtx + 1 < maxRtx) ∧
    ∀ wrb ∈ conn.unackedQ, wrb.nrtx + 1 < maxRtx

theorem Numbered.rexmitHead (inv : Numbered conn stream) (none : NoneExpires conn) :
    Numbered (Tcp.rexmitHead conn) stream := by
  unfold Tcp.rexmitHead
  split
  · exact inv
  next head rest writeQ =>
  by_cases some : 0 < head.sent
  · have alive := none.1 head (by simp [writeQ]) some
    rw [if_pos some, if_neg (by omega)]
    rw [Numbered, writeQ] at inv
    exact inv.againHead some
  · rw [if_neg some]
    exact inv

theorem rexmitHead_unackedQ (conn : Conn B) : (rexmitHead conn).unackedQ = conn.unackedQ := by
  unfold rexmitHead
  split
  · rfl
  split
  · split <;> rfl
  · rfl

theorem Placed.foldr_requeue {before : List (WrBuffer B)}
    (alive : ∀ wrb ∈ queue, wrb.nrtx + 1 < maxRtx)
    (inv : Placed conn.isn conn.sent conn.writeQ (before ++ queue) stream) :
    Placed (queue.foldr requeue conn).isn (queue.foldr requeue conn).sent
      (queue.foldr requeue conn).writeQ before stream := by
  induction queue generalizing before with
  | nil => simpa using inv
  | cons wrb rest ih =>
    have inv' := @ih (before ++ [wrb]) (fun other mem => alive other (by simp [mem]))
      (by simpa using inv)
    have alive := alive wrb mem_cons_self
    rw [foldr_cons, requeue, if_neg (by omega)]
    exact inv'.again

theorem foldr_requeue_unackedQ (queue : List (WrBuffer B)) (conn : Conn B) :
    (queue.foldr requeue conn).unackedQ = conn.unackedQ := by
  induction queue with
  | nil => rfl
  | cons wrb rest ih =>
    rw [foldr_cons, requeue]
    split <;> exact ih

theorem Numbered.rexmitBuffers (inv : Numbered conn stream) (none : NoneExpires conn) :
    Numbered (Tcp.rexmitBuffers conn) stream := by
  have headInv := inv.rexmitHead none
  rw [Numbered, rexmitHead_unackedQ] at headInv
  rw [Numbered, Tcp.rexmitBuffers, foldr_requeue_unackedQ]
  exact Placed.foldr_requeue none.2 headInv

/-! ## Transmissions -/

/-- The buffer with the number it is sent with. -/
def WrBuffer.withNumber (isn sent : Seq) (wrb : WrBuffer B) : WrBuffer B :=
  { wrb with seqno := if wrb.seqno = unassigned then isn + sent else wrb.seqno }

section

variable {wrb : WrBuffer B} (inv : Placed isn sent (wrb :: rest) unackedQ stream)

include inv

theorem Placed.withNumber :
    (wrb.withNumber isn sent).At isn stream ∧
      Placed isn sent (wrb.withNumber isn sent :: rest) unackedQ stream := by
  obtain ⟨numbered, fresh, writeQ, split⟩ := inv.queue
  cases numbered with
  | nil =>
    subst writeQ
    obtain ⟨new, zero⟩ := split.new wrb mem_cons_self
    have rest_ := split.rest
    simp only [unsent_nil, Nat.add_zero, map_cons, flatten_cons] at rest_
    have len := congrArg List.length rest_
    have reaches := split.reaches
    simp only [length_append, length_drop, unsent_nil, Nat.add_zero] at len reaches
    have placed : (wrb.withNumber isn sent).At isn stream := by
      refine ⟨sent.toNat, ?_, ?_, ?_, ?_⟩
      · simp [WrBuffer.withNumber, new]
      · simp [WrBuffer.withNumber, ← rest_]
      · simp only [WrBuffer.withNumber]
        omega
      · simp [WrBuffer.withNumber, zero]
    have left : unsent [wrb.withNumber isn sent] = wrb.data.length := by
      simp [WrBuffer.withNumber, zero]
    refine ⟨placed, inv.noWrap, ⟨[wrb.withNumber isn sent], rest, rfl, ?_, ?_, ?_, ?_⟩,
      inv.unacked, inv.enough⟩
    · intro other mem
      rwa [mem_singleton.1 mem]
    · exact fun other mem => split.new other (mem_cons_of_mem wrb mem)
    · rw [left, ← drop_drop, ← rest_, drop_left]
    · omega
  | cons wrb' rest' =>
    obtain ⟨rfl, rfl⟩ := List.cons.inj writeQ
    have placed := split.placed wrb mem_cons_self
    have number := placed.ne_unassigned inv.noWrap
    have same : wrb.withNumber isn sent = wrb := by
      rw [WrBuffer.withNumber, if_neg]
      intro eq
      rw [eq] at number
      exact Nat.lt_irrefl _ number
    rw [same]
    exact ⟨placed, inv⟩

variable (placed : wrb.At isn stream)
include placed

theorem Placed.numberedHead :
    ∃ numbered fresh, rest = numbered ++ fresh ∧ Split isn stream sent (wrb :: numbered) fresh := by
  obtain ⟨numbered, fresh, writeQ, split⟩ := inv.queue
  cases numbered with
  | nil =>
    rw [nil_append] at writeQ
    have new := (split.new wrb (by simp [← writeQ])).1
    have number := placed.ne_unassigned inv.noWrap
    rw [new] at number
    exact absurd number (Nat.lt_irrefl _)
  | cons wrb' rest' =>
    obtain ⟨rfl, rfl⟩ := List.cons.inj writeQ
    exact ⟨rest', fresh, rfl, split⟩

theorem Placed.sendMore {len : ℕ} (le : len ≤ wrb.data.length - wrb.sent) :
    Placed isn (sent + BitVec.ofNat 32 len) ({ wrb with sent := wrb.sent + len } :: rest) unackedQ
      stream := by
  obtain ⟨numbered, fresh, rfl, split⟩ := inv.numberedHead placed
  have noWrap := inv.noWrap
  have enough := inv.enough
  have reaches := split.reaches
  simp only [unsent_cons, counted_cons] at enough reaches
  have more : (sent + BitVec.ofNat 32 len).toNat = sent.toNat + len := by bv_omega
  refine ⟨inv.noWrap, ⟨{ wrb with sent := wrb.sent + len } :: numbered, fresh, rfl,
    split.setHead ?_ ?_⟩, inv.unacked, ?_⟩
  · obtain ⟨start, seqno, data, fits, all⟩ := placed
    exact ⟨start, seqno, data, fits, by dsimp only; omega⟩
  · simp only [more]
    omega
  · simp only [counted_cons, more]
    omega

/-- The head of `write_q` has been sent to its end and waits for its acknowledgment. -/
theorem Placed.sentAll (all : wrb.sent = wrb.data.length) :
    Placed isn sent rest (insertSegment wrb unackedQ) stream := by
  obtain ⟨numbered, fresh, rfl, split⟩ := inv.numberedHead placed
  have enough := inv.enough
  have inserted := counted_perm (insertSegment_perm wrb unackedQ)
  rw [counted_cons] at enough inserted
  have same : unsent (wrb :: numbered) = unsent numbered := by simp [all]
  refine ⟨inv.noWrap, ⟨numbered, fresh, rfl,
    fun other mem => split.placed other (mem_cons_of_mem wrb mem), split.new, same ▸ split.rest,
    same ▸ split.reaches⟩, fun other mem => ?_, by omega⟩
  rcases mem_cons.1 ((insertSegment_perm wrb unackedQ).mem_iff.1 mem) with rfl | mem
  · exact ⟨placed, all⟩
  · exact inv.unacked other mem

end

/-- The bytes of a segment are those of the stream that its number names. -/
def CarriesAt (isn : Seq) (stream : List B) (seqno : Seq) (data : List B) : Prop :=
  (seqno - isn).toNat + data.length ≤ stream.length ∧
    data = (stream.drop (seqno - isn).toNat).take data.length

theorem WrBuffer.At.carries (noWrap : isn.toNat + stream.length < 2 ^ 32 - 1)
    (placed : wrb.At isn stream) {len : ℕ} (le : len ≤ wrb.data.length - wrb.sent) :
    CarriesAt isn stream (wrb.seqno + BitVec.ofNat 32 wrb.sent)
      ((wrb.data.drop wrb.sent).take len) := by
  obtain ⟨start, seqno, data, fits, all⟩ := placed
  have place : (wrb.seqno + BitVec.ofNat 32 wrb.sent - isn).toNat = start + wrb.sent := by
    bv_omega
  have length : ((wrb.data.drop wrb.sent).take len).length = len := by
    simp only [length_take, length_drop]
    omega
  rw [CarriesAt, place, length]
  refine ⟨by omega, ?_⟩
  conv =>
    lhs
    rw [data, drop_take, take_take, drop_drop, Nat.min_eq_left le]

theorem sendHead_placed (inv : Placed conn.isn conn.sent (wrb :: rest) conn.unackedQ stream) :
    Numbered (sendHead conn wrb rest).1 stream ∧
      CarriesAt conn.isn stream (sendHead conn wrb rest).1.sndseq (sendHead conn wrb rest).2 := by
  obtain ⟨placed, numbered⟩ := inv.withNumber
  have le : wrb.sndlen conn.mss conn.winsize ≤ wrb.data.length - wrb.sent := by
    unfold WrBuffer.sndlen
    omega
  have carries := placed.carries inv.noWrap le
  have more := numbered.sendMore placed le
  have placed' : WrBuffer.At conn.isn stream { wrb.withNumber conn.isn conn.sent with
      sent := wrb.sent + wrb.sndlen conn.mss conn.winsize } := by
    obtain ⟨start, seqno, data, fits, all⟩ := placed
    exact ⟨start, seqno, data, fits, by simp only [WrBuffer.withNumber] at all ⊢; omega⟩
  unfold sendHead
  dsimp only
  split
  · next all =>
    refine ⟨?_, carries⟩
    refine more.sentAll placed' ?_
    simp only [WrBuffer.withNumber]
    have : wrb.sent ≤ wrb.data.length := placed.sent_le
    omega
  · exact ⟨more, carries⟩

/-- What the sender has done is right for a stream: its buffers are placed and the bytes it sends
are those of the stream. -/
def SentRight (isn : Seq) (stream : List B) (conn : Conn B) (snd : List B) : Prop :=
  conn.isn = isn ∧ Numbered conn stream ∧ (snd ≠ [] → CarriesAt isn stream conn.sndseq snd)

theorem transmit_right (inv : Numbered conn stream) (flags : Flags) :
    SentRight conn.isn stream (transmit conn flags).1 (transmit conn flags).2.2 := by
  have nothing : SentRight conn.isn stream conn ([] : List B) := ⟨rfl, inv, fun h => absurd rfl h⟩
  unfold transmit
  split
  · split
    · exact nothing
    next wrb rest writeQ =>
    rw [Numbered, writeQ] at inv
    obtain ⟨numbered, carries⟩ := sendHead_placed inv
    exact ⟨(sendHead_frame conn wrb rest).isn, numbered, fun _ => carries⟩
  · exact nothing

/-- What is needed of an event so that numbers keep their meaning. -/
structure SafeFlags (conn : Conn B) (flags : Flags) (ackno : Seq) : Prop where
  acks : flags.ackdata = true → AckWithinHead conn.writeQ ackno
  rexmit : flags.rexmit = true → NoneExpires conn

variable {flags : Flags}

theorem sendEventhandler_right (inv : Numbered conn stream)
    (safe : SafeFlags conn flags ackno) (alive : flags.disconn = false) :
    SentRight conn.isn stream (sendEventhandler conn flags ackno).1
      (sendEventhandler conn flags ackno).2.2 := by
  unfold sendEventhandler
  split
  · exact ⟨rfl, inv, fun h => absurd rfl h⟩
  split
  · next acked =>
    have inv' : Numbered (ackBuffers conn ackno) stream := inv.ack (safe.acks acked)
    exact transmit_right inv' flags
  split
  · next lost => simp [alive] at lost
  split
  · next again =>
    have isn := (rexmitBuffers_frame conn).isn
    rw [← isn]
    exact transmit_right (inv.rexmitBuffers (safe.rexmit again)) flags
  · exact transmit_right inv flags

theorem callback_right (env : Env) (inv : Numbered conn stream)
    (safe : SafeFlags conn flags ackno) (timedout : flags.timedout = false) (data : List B)
    (close : (callback env conn flags ackno data).2.1.close = false)
    (abort : (callback env conn flags ackno data).2.1.abort = false) :
    SentRight conn.isn stream (callback env conn flags ackno data).1
      (callback env conn flags ackno data).2.2 := by
  obtain ⟨closing, readahead, received, receiver, flags', readahead', sender, conn', snd, close',
    abort'⟩ := callback_sender env conn flags ackno data
  have inv' : Numbered { conn with closing, readahead, received, receiver } stream := inv
  have safe' : SafeFlags { conn with closing, readahead, received, receiver } flags' ackno :=
    ⟨fun acked => safe.acks (sender.ackdata ▸ acked),
      fun again => safe.rexmit (sender.rexmit ▸ again)⟩
  have alive : flags'.disconn = false := by
    rw [Flags.disconn, ← close', ← abort', close, abort, sender.timedout, timedout]
    rfl
  have right := sendEventhandler_right inv' safe' alive
  rw [conn', snd]
  exact right

/-! ## Steps -/

/-- After a step the segments carry the right bytes, and as long as the connection is established
its buffers are placed. -/
structure StepRight (isn : Seq) (stream : List B) (result : Conn B × List (Output B)) : Prop where
  conn : result.1.state = .established → result.1.isn = isn ∧ Numbered result.1 stream
  outs : ∀ out ∈ result.2, out.data ≠ [] → CarriesAt isn stream out.seqno out.data

variable {result : Conn B × List (Output B)}

theorem StepRight.left (state : result.1.state ≠ .established)
    (noData : ∀ out ∈ result.2, out.data = []) : StepRight isn stream result :=
  ⟨fun h => absurd h state, fun out mem some => absurd (noData out mem) some⟩

theorem StepRight.kept (isn_ : result.1.isn = isn)
    (inv : Numbered result.1 stream) (noData : ∀ out ∈ result.2, out.data = []) :
    StepRight isn stream result :=
  ⟨fun _ => ⟨isn_, inv⟩, fun out mem some => absurd (noData out mem) some⟩

theorem rexmit_carries (result : Flags) (carries : snd ≠ [] → CarriesAt isn stream conn.sndseq snd) :
    ∀ out ∈ rexmit conn result snd, out.data ≠ [] → CarriesAt isn stream out.seqno out.data := by
  intro out mem
  unfold rexmit at mem
  split at mem
  · next some =>
    rw [mem_singleton.1 mem]
    exact fun _ => carries some
  split at mem
  · rw [mem_singleton.1 mem]
    exact fun some => absurd rfl some
  · simp at mem

theorem appsend_right {result : Flags}
    (right : result.close = false → result.abort = false → SentRight isn stream conn snd) :
    StepRight isn stream (appsend conn result snd) := by
  unfold appsend
  split
  · exact .left nofun (by simp [output])
  split
  · exact .left nofun (by simp [output])
  next abort close =>
  obtain ⟨same, inv, carries⟩ := right (by simpa using close) (by simpa using abort)
  exact ⟨fun _ => ⟨same, inv⟩, rexmit_carries result carries⟩

theorem poll_right (env : Env) (inv : Numbered conn stream) :
    StepRight conn.isn stream (poll env conn) := by
  unfold poll respond
  split
  · refine appsend_right fun close abort => ?_
    exact callback_right env inv ⟨Bool.noConfusion, Bool.noConfusion⟩ rfl [] close abort
  · exact .kept rfl inv (by simp)

theorem callback_flags (env : Env) (conn : Conn B) (noData : flags.newdata = false)
    (noPoll : flags.poll = false) (ackno : Seq) (data : List B) :
    (callback env conn flags ackno data).2.1.close = flags.close ∧
      (callback env conn flags ackno data).2.1.abort = flags.abort := by
  have same : (closeEventhandler conn flags data).2.1 = flags := by
    unfold closeEventhandler
    split
    · rfl
    split
    · rfl
    split
    · rfl
    · next waits => simp [noData, noPoll] at waits
  have answered := deliver_flags env (closeEventhandler conn flags data).1
    (closeEventhandler conn flags data).2.1 ackno (closeEventhandler conn flags data).2.2
  unfold callback
  simpa only [same] using answered

theorem timeout_right (env : Env) (inv : Numbered conn stream)
    (established : conn.state = .established) (none : NoneExpires conn) :
    StepRight conn.isn stream (timeout cfg env conn) := by
  have closed : (callback env (conn.enter .closed) { timedout := true } 0 []).1.state ≠
      .established := by
    rw [(callback_frame env (conn.enter .closed) { timedout := true } 0 []).state]
    exact nofun
  unfold timeout
  dsimp only
  rw [if_neg (by simp [established])]
  split
  · exact .kept rfl inv (by simp)
  rw [if_neg (by simp [established])]
  split
  · exact .left closed (by simp [output])
  have inv' : Numbered { conn with nrtx := conn.nrtx + 1 } stream := inv
  split
  case h_3 =>
    have safe : SafeFlags { conn with nrtx := conn.nrtx + 1 } { rexmit := true } 0 :=
      ⟨nofun, fun _ => none⟩
    obtain ⟨close, abort⟩ := callback_flags env { conn with nrtx := conn.nrtx + 1 }
      (show ({ rexmit := true } : Flags).newdata = false from rfl) rfl 0 []
    obtain ⟨same, numbered, carries⟩ := callback_right env inv' safe rfl [] close abort
    exact ⟨fun _ => ⟨same, numbered⟩, rexmit_carries _ carries⟩
  all_goals exact .kept rfl inv' (by simp [output])

/-! ## Segments -/

structure SameSender (conn conn' : Conn B) : Prop where
  isn : conn'.isn = conn.isn
  sent : conn'.sent = conn.sent
  writeQ : conn'.writeQ = conn.writeQ
  unackedQ : conn'.unackedQ = conn.unackedQ
  winsize : conn'.winsize = conn.winsize

/-- A segment changes the write buffers at most by acknowledging them, and no data is sent in
answer. -/
inductive Acking (conn : Conn B) (seg : Segment B) (result : Conn B × List (Output B)) : Prop
  | left (state : result.1.state ≠ .established) (noData : ∀ out ∈ result.2, out.data = [])
  | stays (same : SameSender { conn with winsize := seg.wnd } result.1)
      (noData : ∀ out ∈ result.2, out.data = [])
  | acks (same : SameSender (ackBuffers { conn with winsize := seg.wnd } seg.ackno) result.1)
      (noData : ∀ out ∈ result.2, out.data = [])

theorem rexmit_noData (conn : Conn B) (result : Flags) :
    ∀ out ∈ rexmit conn result [], out.data = [] := by
  intro out mem
  rw [rexmit, if_neg (fun h => h rfl)] at mem
  split at mem
  · rw [mem_singleton.1 mem]
    rfl
  · simp at mem

/-- The answer to a callback ends the connection without data, or is what the callback sends. -/
theorem appsend_cases (conn : Conn B) (result : Flags) (snd : List B) :
    ((appsend conn result snd).1.state ≠ .established ∧
        ∀ out ∈ (appsend conn result snd).2, out.data = []) ∨
      result.abort = false ∧ result.close = false ∧
        appsend conn result snd = (conn, rexmit conn result snd) := by
  unfold appsend
  split
  · exact .inl ⟨by simp [Conn.enter], by simp [output]⟩
  split
  · exact .inl ⟨by simp [Conn.finish], by simp [output]⟩
  · next abort close => exact .inr ⟨by simpa using abort, by simpa using close, rfl⟩

theorem sendEventhandler_ack {flags : Flags} (noPoll : flags.poll = false)
    (noRexmit : flags.rexmit = false) (alive : flags.disconn = false) (ackno : Seq) :
    (sendEventhandler conn flags ackno).2.2 = [] ∧ ((sendEventhandler conn flags ackno).1 = conn ∨
        (sendEventhandler conn flags ackno).1 = ackBuffers conn ackno) := by
  have nothing : ∀ conn : Conn B, transmit conn flags = (conn, flags, []) := by
    intro conn
    rw [transmit, if_neg (by simp [noPoll, noRexmit])]
  unfold sendEventhandler
  split
  · exact ⟨rfl, .inl rfl⟩
  split
  · rw [nothing]
    exact ⟨rfl, .inr rfl⟩
  rw [alive, noRexmit, if_neg Bool.false_ne_true, if_neg Bool.false_ne_true, nothing]
  exact ⟨rfl, .inl rfl⟩

/-- What `tcp_input` keeps of the bytes that are not acknowledged. -/
structure SameNumbers (conn conn' : Conn B) : Prop where
  sndseq : conn'.sndseq = conn.sndseq
  txUnacked : conn'.txUnacked = conn.txUnacked
  sndseqMax : conn'.sndseqMax = conn.sndseqMax

theorem inputData_acking (env : Env) (acked : Bool) (wnd : conn.winsize = seg.wnd) :
    Acking conn seg (inputData env conn acked seg) ∧
      ((inputData env conn acked seg).1.state = .established →
        SameNumbers conn (inputData env conn acked seg).1) := by
  unfold inputData
  dsimp only
  split
  · obtain ⟨closing, readahead, received, receiver, flags, readahead', sender, after, snd, close,
      abort⟩ := callback_sender env (conn.advance (urglen seg))
        { ackdata := acked, newdata := !(seg.data.drop (urglen seg)).isEmpty &&
          !(conn.advance (urglen seg)).stopped } seg.ackno (seg.data.drop (urglen seg))
    generalize callback env _ _ _ _ = called at after snd close abort ⊢
    obtain ⟨conn', result, data⟩ := called
    dsimp only at after snd close abort ⊢
    rcases appsend_cases (if result.sndack then
      conn'.advance (seg.data.drop (urglen seg)).length else conn') result data with
      ⟨state, noData⟩ | ⟨notAbort, notClose, answer⟩
    · exact ⟨.left state noData, fun stays => absurd stays state⟩
    have alive : flags.disconn = false := by
      rw [Flags.disconn, ← close, ← abort, sender.timedout, notAbort, notClose]
      rfl
    obtain ⟨nothing, same⟩ := sendEventhandler_ack sender.poll sender.rexmit alive seg.ackno
    rw [answer, snd, nothing]
    rcases same with same | same
    all_goals
      rw [same] at after
      subst after
    · refine ⟨.stays ?_ (rexmit_noData _ _), fun _ => ?_⟩
      · split <;> exact ⟨rfl, rfl, rfl, rfl, wnd⟩
      · split <;> exact ⟨rfl, rfl, rfl⟩
    · refine ⟨.acks ?_ (rexmit_noData _ _), fun _ => ?_⟩
      · split <;> exact ⟨rfl, rfl, rfl, rfl, wnd⟩
      · split <;> exact ⟨rfl, rfl, rfl⟩
  · exact ⟨.stays ⟨rfl, rfl, rfl, rfl, wnd⟩ (by simp), fun _ => ⟨rfl, rfl, rfl⟩⟩

/-- The connection when `tcp_input` has looked at the acknowledgment number, if it gets there. -/
def looked (cfg : Config) (conn : Conn B) (seg : Segment B) : Conn B :=
  if isProbe cfg conn seg ∨ ¬ inSequence conn seg then conn else (acknowledge cfg conn seg).1

theorem input_acking (cfg : Config) (env : Env) (established : conn.state = .established)
    (seg : Segment B) :
    Acking conn seg (input cfg env conn seg) ∧
      ((input cfg env conn seg).1.state = .established →
        SameNumbers (looked cfg { conn with winsize := seg.wnd } seg) (input cfg env conn seg).1) := by
  unfold input looked
  dsimp only
  split
  · rw [if_neg (by simp [established])]
    have state := (callback_frame env ({ conn with winsize := seg.wnd }.enter .closed)
      { abort := true } seg.ackno seg.data).state
    exact ⟨.left (by simp [state]) (by simp), by simp [state]⟩
  split
  · exact ⟨.stays ⟨rfl, rfl, rfl, rfl, rfl⟩ (by simp [output]), fun _ => ⟨rfl, rfl, rfl⟩⟩
  obtain ⟨txUnacked, sndseq, same⟩ := acknowledge_frame cfg { conn with winsize := seg.wnd } seg
  generalize acknowledge cfg { conn with winsize := seg.wnd } seg = after at same ⊢
  obtain ⟨conn', acked⟩ := after
  dsimp only at same ⊢
  have established' : conn'.state = .established := by rw [same, established]
  have wnd : conn'.winsize = seg.wnd := by rw [same]
  rw [inputState, established']
  dsimp only
  split
  · exact ⟨.left State.noConfusion (by simp [inputFin, output]), State.noConfusion⟩
  · obtain ⟨acking, numbers⟩ := inputData_acking env acked wnd
    refine ⟨?_, numbers⟩
    subst same
    rcases acking with ⟨state, noData⟩ | ⟨same, noData⟩ | ⟨same, noData⟩
    · exact .left state noData
    · exact .stays { same with } noData
    · exact .acks { same with } noData

theorem SameSender.numbered {conn' : Conn B} (same : SameSender conn conn')
    (inv : Numbered conn stream) : Numbered conn' stream := by
  rwa [Numbered, same.isn, same.sent, same.writeQ, same.unackedQ]

theorem input_right (cfg : Config) (env : Env) (inv : Numbered conn stream)
    (established : conn.state = .established) (within : AckWithinHead conn.writeQ seg.ackno) :
    StepRight conn.isn stream (input cfg env conn seg) := by
  rcases (input_acking cfg env established seg).1 with
    ⟨state, noData⟩ | ⟨same, noData⟩ | ⟨same, noData⟩
  · exact .left state noData
  · exact .kept same.isn (same.numbered inv) noData
  · exact .kept same.isn (same.numbered (inv.ack within)) noData

/-! ## Runs -/

/-- The bytes accepted by `psock_tcp_send` in a step. -/
def accepted : Event B → List B
  | .send data => data
  | _ => []

/-- No acknowledgment goes beyond what was sent of a head of `write_q` that is sent in part, no
retransmission gives up a buffer, and the length of a write buffer has 16 bits. -/
def Tame (conn : Conn B) : Event B → Prop
  | .send data => data.length < 2 ^ 16
  | .input _ seg => AckWithinHead conn.writeQ seg.ackno
  | .timeout _ => NoneExpires conn
  | _ => True

/-- A connection in `TCP_ESTABLISHED` since nothing has been sent, with its initial sequence number,
what the application has sent and the segments handed to the device. -/
inductive SendRun (cfg : Config) (ok : Conn B → Event B → Prop) (isn : Seq) :
    Conn B → List B → List (Output B) → Prop
  | start {conn : Conn B} (isn_ : conn.isn = isn) (established : conn.state = .established)
      (sent : conn.sent = 0) (writeQ : conn.writeQ = []) (unackedQ : conn.unackedQ = []) :
      SendRun cfg ok isn conn [] []
  | step {conn : Conn B} {stream : List B} {outs : List (Output B)}
      (before : SendRun cfg ok isn conn stream outs) (established : conn.state = .established)
      (event : Event B) (holds : ok conn event) :
      SendRun cfg ok isn (step cfg conn event).1 (stream ++ accepted event)
        (outs ++ (step cfg conn event).2)

theorem step_right (cfg : Config) (inv : Numbered conn stream)
    (established : conn.state = .established) {event : Event B} (tame : Tame conn event)
    (noWrap : conn.isn.toNat + (stream ++ accepted event).length < 2 ^ 32 - 1) :
    StepRight conn.isn (stream ++ accepted event) (step cfg conn event) := by
  cases event
  case send data =>
    rw [step, Tcp.send]
    split
    · exact .kept rfl (inv.send noWrap) (by simp)
    next nothing =>
    have : data = [] := by simpa [established] using nothing
    subst this
    simp only [accepted, append_nil]
    exact .kept rfl inv (by simp)
  all_goals simp only [accepted, append_nil]
  case input env seg => exact input_right cfg env inv established tame
  case poll env => exact poll_right env inv
  case timeout env => exact timeout_right env inv established tame
  case recvfrom buflen =>
    have same : ∃ received readahead receiver,
        recvfrom conn buflen = { conn with received, readahead, receiver } := by
      unfold recvfrom
      dsimp only
      split <;> exact ⟨_, _, _, rfl⟩
    obtain ⟨received, readahead, receiver, same⟩ := same
    rw [step, same]
    exact .kept rfl inv (by simp)
  all_goals exact .kept rfl inv (by simp [step])

theorem CarriesAt.append (carries : CarriesAt isn stream seqno data) (more : List B) :
    CarriesAt isn (stream ++ more) seqno data := by
  obtain ⟨fits, bytes⟩ := carries
  rw [CarriesAt, take_drop_append more fits, length_append]
  exact ⟨Nat.le_trans fits (Nat.le_add_right _ _), bytes⟩

theorem SendRun.right {outs : List (Output B)} (run : SendRun cfg Tame isn conn stream outs)
    (noWrap : isn.toNat + stream.length < 2 ^ 32 - 1) : StepRight isn stream (conn, outs) := by
  induction run with
  | @start conn isn_ established sent writeQ unackedQ =>
    refine .kept isn_ ⟨isn_ ▸ noWrap, ?_, ?_, ?_⟩ (by simp)
    · exact ⟨[], [], by simp [writeQ], by simp, by simp, by simp, by simp [sent]⟩
    · simp [unackedQ]
    · simp [writeQ, unackedQ]
  | @step conn stream outs before established event holds ih =>
    obtain ⟨conn', outs'⟩ := ih (by simp at noWrap; omega)
    obtain ⟨same, inv⟩ := conn' established
    subst same
    obtain ⟨next, sent⟩ := step_right cfg inv established holds noWrap
    refine ⟨next, fun out mem some => ?_⟩
    rcases mem_append.1 mem with mem | mem
    · exact (outs' out mem some).append _
    · exact sent out mem some

theorem CarriesAt.byte (carries : CarriesAt isn stream seqno data) {i : ℕ} (lt : i < data.length) :
    data[i]? = stream[(seqno - isn).toNat + i]? := by
  obtain ⟨-, bytes⟩ := carries
  rw [bytes, getElem?_take, if_pos lt, getElem?_drop]

/-- The condition holds at each of the events, and the connection is established. -/
def Along (cfg : Config) (ok : Conn B → Event B → Prop) : Conn B → List (Event B) → Prop
  | _, [] => True
  | conn, event :: rest =>
    conn.state = .established ∧ ok conn event ∧ Along cfg ok (step cfg conn event).1 rest

def afterEvents (cfg : Config) (run : Conn B × List B × List (Output B)) :
    List (Event B) → Conn B × List B × List (Output B)
  | [] => run
  | event :: rest => afterEvents cfg ((step cfg run.1 event).1, run.2.1 ++ accepted event,
      run.2.2 ++ (step cfg run.1 event).2) rest

theorem SendRun.afterEvents {ok : Conn B → Event B → Prop} {run : Conn B × List B × List (Output B)}
    (before : SendRun cfg ok isn run.1 run.2.1 run.2.2) (events : List (Event B))
    (holds : Along cfg ok run.1 events) :
    SendRun cfg ok isn (afterEvents cfg run events).1 (afterEvents cfg run events).2.1
      (afterEvents cfg run events).2.2 := by
  induction events generalizing run with
  | nil => exact before
  | cons event rest ih =>
    obtain ⟨established, ok, holds⟩ := holds
    exact ih (before.step established event ok) holds

def unused : Conn ℕ × List ℕ × List (Output ℕ) := (peerConnected, [], [])

theorem unused_run (ok : Conn ℕ → Event ℕ → Prop) :
    SendRun buffered ok 1001 unused.1 unused.2.1 unused.2.2 :=
  .start (by decide) (by decide) (by decide) (by decide) (by decide)

/-- Two bytes are sent and never acknowledged; two more wait. -/
def expiring : List (Event ℕ) :=
  [.send [1, 2], .poll ⟨true, true⟩] ++ List.replicate 7 (.timeout ⟨true, true⟩) ++
    [.send [3, 4], .timeout ⟨true, true⟩]

/-- The first two bytes are sent twice and acknowledged before the next two are sent. -/
def acknowledged : List (Event ℕ) :=
  [.send [1, 2], .poll ⟨true, true⟩, .timeout ⟨true, true⟩, .input ⟨true, true⟩ (pureAck 1003),
    .send [3, 4], .poll ⟨true, true⟩]

end NuttxRtos.Tcp
