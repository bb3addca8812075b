import NuttxRtos.Tcp.Transitions

/-!
# Received data

What has been copied to the user's buffers and what waits in the read-ahead queue is the peer's
stream up to `rcvseq`.
-/

namespace NuttxRtos.Tcp

open List

variable {B : Type} {cfg : Config} {env : Env} {conn : Conn B} {seg : Segment B}

/-- The received data that has not been lost, in order. -/
def Conn.kept (conn : Conn B) : List B := conn.received ++ conn.readahead.flatten

/-- A thread waits for data only while nothing is read ahead. -/
def WaitInv (conn : Conn B) : Prop :=
  ∀ buflen, conn.receiver = some buflen → 0 < buflen ∧ conn.readahead.flatten = []

/-- The buffer of a waiting thread and the I/O buffers take what `tcp_newdata` passes to them. -/
def RestFits (env : Env) (conn : Conn B) (data : List B) : Prop :=
  ∀ buflen, conn.receiver = some buflen → env.room = true ∨ data.length ≤ buflen

def Fits (env : Env) (conn : Conn B) (data : List B) : Prop :=
  env.room = true ∨ ∃ buflen, conn.receiver = some buflen ∧ data.length ≤ buflen

/-! ## The callbacks -/

theorem datahandler_kept (env : Env) (conn : Conn B) (data : List B) :
    (datahandler env conn data).1.kept = conn.kept ++ if env.room then data else [] := by
  unfold datahandler
  split <;> simp [Conn.kept]

theorem newdata_receiver (env : Env) (conn : Conn B) (buflen : ℕ) (data : List B) :
    (newdata env conn buflen data).receiver = conn.receiver := by
  unfold newdata datahandler
  dsimp only
  split
  · split <;> rfl
  · rfl

variable {buflen : ℕ} {data : List B}

theorem newdata_kept (empty : conn.readahead.flatten = [])
    (fits : env.room = true ∨ data.length ≤ buflen) :
    (newdata env conn buflen data).kept = conn.kept ++ data := by
  unfold newdata
  dsimp only
  split
  · next short =>
    have room : env.room = true := fits.resolve_right (by omega)
    rw [datahandler_kept, room, if_pos rfl]
    simp [Conn.kept, empty]
  next all =>
  rw [take_of_length_le (by omega)]
  simp [Conn.kept, empty]

variable {flags : Flags}

theorem recvEventhandler_waiting (inv : WaitInv conn)
    (waiting : conn.receiver = some buflen) (fresh : flags.newdata = true)
    (fits : env.room = true ∨ data.length ≤ buflen) :
    (recvEventhandler env conn flags data).1.kept = conn.kept ++ data ∧
      WaitInv (recvEventhandler env conn flags data).1 ∧
      (recvEventhandler env conn flags data).2 =
        ({ flags with newdata := false, sndack := true }, []) := by
  obtain ⟨positive, empty⟩ := inv buflen waiting
  have kept := newdata_kept empty fits
  simp only [recvEventhandler, waiting, fresh, if_true, and_true]
  split
  · refine ⟨kept, fun n h => ?_⟩
    cases h
  next nothing =>
  refine ⟨kept, fun n h => ?_⟩
  rw [newdata_receiver, waiting] at h
  have none : data = [] := eq_nil_of_length_eq_zero (by omega)
  cases h
  refine ⟨positive, ?_⟩
  subst none
  simpa [newdata] using empty

theorem recvEventhandler_idle (data : List B)
    (idle : conn.receiver = none ∨ flags.newdata = false) :
    recvEventhandler env conn flags data = (conn, flags, data) := by
  unfold recvEventhandler
  split
  · rfl
  next waiting =>
  rw [waiting] at idle
  simp [idle.resolve_left (by simp)]

theorem dataEvent_kept (env : Env) (conn : Conn B) (flags : Flags) (data : List B) :
    (dataEvent env conn flags data).1.kept =
      conn.kept ++ if (dataEvent env conn flags data).2.sndack then data else [] := by
  unfold dataEvent
  split
  · next none => simp [none]
  · rw [datahandler_kept]
    cases room : env.room <;> simp [datahandler, room]

theorem dataEvent_sndack (room : env.room = true) :
    (dataEvent env conn flags data).2.sndack = true := by
  simp [dataEvent, datahandler, room]
  split <;> rfl

variable {conn' : Conn B}

structure SameReceived (conn conn' : Conn B) : Prop where
  readahead : conn'.readahead = conn.readahead
  received : conn'.received = conn.received
  receiver : conn'.receiver = conn.receiver

theorem SameReceived.kept (same : SameReceived conn conn') : conn'.kept = conn.kept := by
  rw [Conn.kept, Conn.kept, same.received, same.readahead]

theorem SameReceived.waitInv (same : SameReceived conn conn')
    (inv : WaitInv conn) : WaitInv conn' := by
  intro buflen h
  rw [same.receiver] at h
  rw [same.readahead]
  exact inv buflen h

theorem SendFrame.same {conn : Conn B} (frame : SendFrame conn conn') : SameReceived conn conn' :=
  ⟨frame.readahead, frame.received, frame.receiver⟩

/-- Data is kept exactly when the result says that it is to be acknowledged. -/
structure Handled (conn : Conn B) (data : List B) (after : Conn B × Flags × List B) : Prop where
  inv : WaitInv after.1
  kept : after.1.kept = conn.kept ++ if after.2.1.sndack then data else []

theorem deliver_handled (inv : WaitInv conn) (noAck : flags.sndack = false)
    (fits : flags.newdata = true → RestFits env conn data) (ackno : Seq) :
    Handled conn data (deliver env conn flags ackno data) ∧ (flags.newdata = true →
      Fits env conn data → (deliver env conn flags ackno data).2.1.sndack = true) := by
  unfold deliver
  by_cases waits : ∃ buflen, conn.receiver = some buflen ∧ flags.newdata = true
  · obtain ⟨buflen, waiting, fresh⟩ := waits
    obtain ⟨kept, inv', rest⟩ := recvEventhandler_waiting inv waiting fresh (fits fresh buflen waiting)
    generalize recvEventhandler env conn flags data = taken at kept inv' rest
    obtain ⟨connR, flagsR, dataR⟩ := taken
    cases rest
    have hsend :=
      (sendEventhandler_frame connR { flags with newdata := false, sndack := true } ackno).same
    obtain ⟨poll, hflags⟩ :=
      sendEventhandler_flags connR { flags with newdata := false, sndack := true } ackno
    simp only [hflags, Bool.false_eq_true, if_false]
    exact ⟨⟨hsend.waitInv inv', by rw [hsend.kept, kept, if_pos rfl]⟩, fun _ _ => trivial⟩
  have idle : conn.receiver = none ∨ flags.newdata = false := by
    cases waiting : conn.receiver with
    | none => exact .inl rfl
    | some buflen => exact .inr (by simpa [waiting] using waits)
  rw [recvEventhandler_idle data idle]
  have hsend := (sendEventhandler_frame conn flags ackno).same
  obtain ⟨poll, hflags⟩ := sendEventhandler_flags conn flags ackno
  dsimp only
  generalize sendEventhandler conn flags ackno = sent at hsend hflags
  obtain ⟨connS, flagsS, snd⟩ := sent
  subst hflags
  split
  · next fresh =>
    have none : conn.receiver = none := by
      refine idle.resolve_right fun stale => ?_
      rw [show flags.newdata = true from fresh] at stale
      cases stale
    refine ⟨⟨fun buflen h => ?_, ?_⟩, fun _ fits => dataEvent_sndack (fits.resolve_right ?_)⟩
    · obtain ⟨readahead, same⟩ := dataEvent_frame env _ _ _
      rw [same, hsend.receiver, none] at h
      cases h
    · rw [dataEvent_kept, hsend.kept]
    · rintro ⟨buflen, waits, -⟩
      rw [none] at waits
      cases waits
  · next stale =>
    exact ⟨⟨hsend.waitInv inv, by simp [noAck, hsend.kept]⟩, fun fresh => absurd fresh stale⟩

/-- A pending close passes the data on, or drops it and lets it go unacknowledged. -/
theorem closeEventhandler_data (conn : Conn B) (flags : Flags) (data : List B) :
    (closeEventhandler conn flags data).2 = (flags, data) ∨
      ¬ (conn.closing = false ∨ flags.disconn = true) ∧ ∃ close,
        (closeEventhandler conn flags data).2 = ({ flags with newdata := false, close }, []) := by
  unfold closeEventhandler
  split
  · exact .inl rfl
  next closing =>
  split
  · exact .inl rfl
  next connected =>
  have drops : ¬ (conn.closing = false ∨ flags.disconn = true) := by simp_all
  split
  · exact .inl rfl
  split
  · exact .inr ⟨drops, flags.close, rfl⟩
  · exact .inr ⟨drops, true, rfl⟩

theorem deliver_sndack_stale (stale : flags.newdata = false) (ackno : Seq) (data : List B) :
    (deliver env conn flags ackno data).2.1.sndack = flags.sndack := by
  obtain ⟨poll, hflags⟩ := sendEventhandler_flags conn flags ackno
  simp [deliver, recvEventhandler_idle data (.inr stale), hflags, stale]

theorem callback_handled (inv : WaitInv conn) (noAck : flags.sndack = false)
    (fits : flags.newdata = true → RestFits env conn data) (ackno : Seq) :
    Handled conn data (callback env conn flags ackno data) ∧ (flags.newdata = true →
      conn.closing = false ∨ flags.disconn = true → Fits env conn data →
        (callback env conn flags ackno data).2.1.sndack = true) := by
  obtain ⟨closing, frame⟩ := closeEventhandler_frame conn flags data
  have passed := closeEventhandler_data conn flags data
  unfold callback
  generalize closeEventhandler conn flags data = after at frame passed
  obtain ⟨connC, flagsC, dataC⟩ := after
  dsimp only at frame passed ⊢
  have kept : connC.kept = conn.kept := by rw [frame]; rfl
  have inv' : WaitInv connC := by rw [frame]; exact inv
  obtain h | ⟨drops, close, h⟩ := passed
  · cases h
    have fits' : flags.newdata = true → RestFits env connC data := by rw [frame]; exact fits
    obtain ⟨handled, acks⟩ := deliver_handled inv' noAck fits' ackno
    refine ⟨⟨handled.inv, kept ▸ handled.kept⟩, fun fresh _ room => acks fresh ?_⟩
    rw [frame]
    exact room
  cases h
  have noAck' : { flags with newdata := false, close }.sndack = false := noAck
  have handled : Handled connC [] (deliver env connC { flags with newdata := false, close } ackno
      []) := (deliver_handled inv' noAck' (nofun) ackno).1
  refine ⟨⟨handled.inv, ?_⟩, fun _ passes => absurd passes drops⟩
  rw [handled.kept, deliver_sndack_stale rfl, noAck', kept]
  rfl

theorem callback_stale (noAck : flags.sndack = false)
    (stale : flags.newdata = false) (ackno : Seq) (data : List B) :
    (callback env conn flags ackno data).2.1.sndack = false := by
  have passed := closeEventhandler_data conn flags data
  unfold callback
  generalize closeEventhandler conn flags data = after at passed
  obtain ⟨connC, flagsC, dataC⟩ := after
  obtain h | ⟨-, close, h⟩ := passed
  · cases h
    rw [deliver_sndack_stale stale, noAck]
  · cases h
    rw [deliver_sndack_stale rfl, noAck]

/-! ## Segments -/

/-- Data comes without options, and can be kept where the code does not look: in the last segment of
the handshake, in a segment with a FIN, and for what a waiting thread leaves. -/
structure Buffers (env : Env) (conn : Conn B) (seg : Segment B) : Prop where
  plain : seg.payload ≠ [] → seg.options = []
  handshake : conn.state = .synRcvd → seg.data ≠ [] → Fits env conn seg.data
  fin : conn.state = .established → seg.ctl.fin = true → seg.data ≠ [] → Fits env conn seg.data
  rest : conn.state = .established → RestFits env conn (seg.data.drop (urglen seg))

theorem Segment.data_eq (plain : seg.payload ≠ [] → seg.options = []) : seg.data = seg.payload := by
  unfold Segment.data
  by_cases empty : seg.payload = []
  · simp [empty]
  · rw [plain empty, nil_append, take_length]

/-- The bytes that are skipped as urgent data. -/
def discarded (conn : Conn B) (seg : Segment B) : ℕ :=
  if conn.state = .established ∧ ¬ (seg.ctl.fin = true ∧ conn.stopped = false) then urglen seg
  else 0

/-- `rcvseq` has gone past the first `len` bytes of the segment and past `fin` sequence numbers
more; of those bytes all that were not discarded are kept. -/
structure Passed (conn : Conn B) (seg : Segment B) (conn' : Conn B) (len fin : ℕ) : Prop where
  inv : WaitInv conn'
  rcvseq : conn'.rcvseq = conn.rcvseq + BitVec.ofNat 32 (len + fin)
  all : len ≤ seg.data.length
  last : fin = 0 ∨ fin = 1 ∧ len = seg.data.length
  kept : conn'.kept = conn.kept ++ (seg.data.take len).drop (discarded conn seg)

theorem Fits.rest (fits : Fits env conn data) : RestFits env conn data := by
  intro buflen waiting
  rcases fits with room | ⟨n, waiting', le⟩
  · exact .inl room
  rw [waiting] at waiting'
  cases waiting'
  exact .inr le

theorem Passed.nothing (inv : WaitInv conn') (kept : conn'.kept = conn.kept)
    (rcvseq : conn'.rcvseq = conn.rcvseq) : Passed conn seg conn' 0 0 where
  inv := inv
  rcvseq := by simp [rcvseq]
  all := Nat.zero_le _
  last := .inl rfl
  kept := by simp [kept]

theorem appsend_same (conn : Conn B) (result : Flags) (snd : List B) :
    SameReceived conn (appsend conn result snd).1 := by
  unfold appsend
  split
  · exact ⟨rfl, rfl, rfl⟩
  split <;> exact ⟨rfl, rfl, rfl⟩

theorem appsend_rcvseq (conn : Conn B) (result : Flags) (snd : List B) :
    (appsend conn result snd).1.rcvseq = conn.rcvseq := by
  unfold appsend
  split
  · rfl
  split <;> rfl

theorem callback_takes (inv : WaitInv conn) (flags : Flags) (noAck : flags.sndack = false)
    (passes : flags.newdata = true → conn.closing = false ∨ flags.disconn = true)
    (fits : flags.newdata = true → Fits env conn data) (ackno : Seq) :
    WaitInv (callback env conn flags ackno data).1 ∧ (callback env conn flags ackno data).1.kept =
        conn.kept ++ if flags.newdata then data else [] := by
  obtain ⟨handled, acks⟩ := callback_handled inv noAck (fun fresh => (fits fresh).rest) ackno
  refine ⟨handled.inv, ?_⟩
  rw [handled.kept]
  cases fresh : flags.newdata
  · rw [callback_stale noAck fresh]
  · rw [acks fresh (passes fresh) (fits fresh)]

theorem callback_nothing (env : Env) (inv : WaitInv conn) (flags : Flags)
    (noAck : flags.sndack = false) (stale : flags.newdata = false) (ackno : Seq) (data : List B) :
    WaitInv (callback env conn flags ackno data).1 ∧
      (callback env conn flags ackno data).1.kept = conn.kept := by
  have none : flags.newdata ≠ true := by simp [stale]
  have taken : WaitInv (callback env conn flags ackno data).1 ∧ _ :=
    callback_takes inv flags noAck (absurd · none) (absurd · none) ackno
  exact ⟨taken.1, by simpa [stale] using taken.2⟩

theorem respond_takes (inv : WaitInv conn) (flags : Flags) (noAck : flags.sndack = false)
    (notClosing : conn.closing = false)
    (fits : flags.newdata = true → Fits env conn data) (ackno : Seq) :
    WaitInv (respond env conn flags ackno data).1 ∧ (respond env conn flags ackno data).1.kept =
        (conn.kept ++ if flags.newdata then data else []) ∧
      (respond env conn flags ackno data).1.rcvseq = conn.rcvseq := by
  obtain ⟨inv', kept⟩ := callback_takes inv flags noAck (fun _ => .inl notClosing) fits ackno
  have rcvseq := (callback_frame env conn flags ackno data).rcvseq
  unfold respond
  generalize callback env conn flags ackno data = after at inv' kept rcvseq
  obtain ⟨connC, result, snd⟩ := after
  have same := appsend_same connC result snd
  exact ⟨same.waitInv inv', same.kept.trans kept, (appsend_rcvseq connC result snd).trans rcvseq⟩

theorem inputSynRcvd_passed (cfg : Config) (inv : WaitInv conn) (state : conn.state = .synRcvd)
    (notClosing : conn.closing = false) (fits : seg.data ≠ [] → Fits env conn seg.data)
    (acked : Bool) :
    ∃ len, Passed conn seg (inputSynRcvd cfg env conn acked seg).1 len 0 ∧
      (0 < len → acked = true) := by
  have noneDiscarded : discarded conn seg = 0 := by simp [discarded, state]
  obtain ⟨same, rcvseq⟩ : SameReceived conn (conn.accepted cfg seg) ∧
      (conn.accepted cfg seg).rcvseq = conn.rcvseq := by
    unfold Conn.accepted
    split <;> exact ⟨⟨rfl, rfl, rfl⟩, rfl⟩
  have closing : (conn.accepted cfg seg).closing = false := accepted_closing.trans notClosing
  have inv' := same.waitInv inv
  unfold inputSynRcvd
  split
  · next acked =>
    split
    · exact ⟨0, .nothing inv rfl rfl, fun _ => acked⟩
    split
    · have nothing : ({ connected := true } : Flags).newdata = true →
          Fits env (conn.accepted cfg seg) [] := nofun
      obtain ⟨inv'', kept, rcvseq'⟩ := respond_takes inv' _ rfl closing nothing seg.ackno
      refine ⟨0, .nothing inv'' ?_ (rcvseq'.trans rcvseq), fun _ => acked⟩
      rw [kept, same.kept]
      simp
    next some =>
    have advanced : SameReceived conn ((conn.accepted cfg seg).advance seg.data.length) :=
      ⟨same.readahead, same.received, same.receiver⟩
    have fits' : Fits env ((conn.accepted cfg seg).advance seg.data.length) seg.data := by
      rw [Fits, advanced.receiver]
      exact fits some
    obtain ⟨inv'', kept, rcvseq'⟩ := respond_takes (advanced.waitInv inv)
      { connected := true, newdata := true } rfl closing (fun _ => fits') seg.ackno
    refine ⟨seg.data.length, ⟨inv'', ?_, Nat.le_refl _, .inl rfl, ?_⟩, fun _ => acked⟩
    · rw [rcvseq', Conn.advance, rcvseq]
      rfl
    · rw [kept, advanced.kept, noneDiscarded]
      simp
  · refine ⟨0, ?_, fun h => absurd h (Nat.lt_irrefl 0)⟩
    split <;> exact .nothing inv rfl rfl

theorem inputFin_passed (inv : WaitInv conn)
    (fin : seg.ctl.fin = true) (notStopped : conn.stopped = false)
    (fits : seg.data ≠ [] → Fits env conn seg.data) (acked : Bool) :
    Passed conn seg (inputFin env conn acked seg).1 seg.data.length 1 := by
  have noneDiscarded : discarded conn seg = 0 := by simp [discarded, fin, notStopped]
  have inv' : WaitInv (conn.advance (seg.data.length + 1)) := inv
  have fits' : (!seg.data.isEmpty) = true →
      Fits env (conn.advance (seg.data.length + 1)) seg.data :=
    fun some => fits (by simpa using some)
  obtain ⟨inv', kept⟩ := callback_takes inv'
    { ackdata := acked, close := true, newdata := !seg.data.isEmpty } rfl (fun _ => .inr rfl) fits' seg.ackno
  refine ⟨inv', ?_, Nat.le_refl _, .inr ⟨rfl, rfl⟩, ?_⟩
  · exact (callback_frame env _ _ _ _).rcvseq
  refine Eq.trans kept ?_
  rw [noneDiscarded]
  cases data : seg.data <;> simp [Conn.kept, Conn.advance]

theorem inputData_passed (inv : WaitInv conn) (state : conn.state = .established)
    (noFin : ¬ (seg.ctl.fin = true ∧ conn.stopped = false))
    (fits : RestFits env conn (seg.data.drop (urglen seg))) (acked : Bool) :
    ∃ len, Passed conn seg (inputData env conn acked seg).1 len 0 := by
  have urgent : urglen seg ≤ seg.data.length := by
    unfold urglen
    split <;> omega
  have skips : discarded conn seg = urglen seg := by simp [discarded, state, noFin]
  have advanced : WaitInv (conn.advance (urglen seg)) := inv
  have same : (conn.advance (urglen seg)).kept = conn.kept := rfl
  unfold inputData
  dsimp only
  split
  · generalize hflags : ({ ackdata := acked, newdata := _ } : Flags) = flags
    have noAck : flags.sndack = false := by rw [← hflags]
    have handled : Handled (conn.advance (urglen seg)) (seg.data.drop (urglen seg))
        (callback env (conn.advance (urglen seg)) flags seg.ackno
          (seg.data.drop (urglen seg))) :=
      (callback_handled advanced noAck (fun _ => fits) seg.ackno).1
    have rcvseq := (callback_frame env (conn.advance (urglen seg)) flags seg.ackno
      (seg.data.drop (urglen seg))).rcvseq
    generalize callback env (conn.advance (urglen seg)) flags seg.ackno
      (seg.data.drop (urglen seg)) = after at handled rcvseq
    obtain ⟨connC, result, snd⟩ := after
    obtain ⟨inv', kept⟩ := handled
    cases sndack : result.sndack
    · have answered := appsend_same connC result snd
      refine ⟨urglen seg, answered.waitInv inv', ?_, urgent, .inl rfl, ?_⟩
      · rw [if_neg (by decide), appsend_rcvseq, rcvseq]
        rfl
      · rw [if_neg (by decide), answered.kept, kept, sndack, same, skips]
        simp
    have answered := appsend_same (connC.advance (seg.data.drop (urglen seg)).length) result snd
    have kept' : (connC.advance (seg.data.drop (urglen seg)).length).kept = connC.kept := rfl
    refine ⟨seg.data.length, answered.waitInv inv', ?_, Nat.le_refl _, .inl rfl, ?_⟩
    · rw [if_pos rfl, appsend_rcvseq, Conn.advance, rcvseq, Conn.advance, length_drop]
      dsimp only
      rw [BitVec.add_assoc, ← BitVec.ofNat_add]
      congr 2
      omega
    · rw [if_pos rfl, answered.kept, kept', kept, sndack, same, skips]
      simp
  refine ⟨urglen seg, inv, rfl, urgent, .inl rfl, ?_⟩
  rw [skips]
  simp [same]

variable {len fin skip : ℕ}

def Receiving (conn : Conn B) : Prop := conn.state = .synRcvd ∨ conn.state = .established

/-- One segment. Where `rcvseq` moves, the segment had the number that was expected. -/
theorem input_passed (inv : WaitInv conn) (control : ControlInv conn) (receiving : Receiving conn)
    (buffers : Buffers env conn seg) :
    ∃ len fin, Passed conn seg (input cfg env conn seg).1 len fin ∧
      (0 < len → seg.seqno = conn.rcvseq) := by
  have nothing : ∀ {conn' : Conn B}, WaitInv conn' → conn'.kept = conn.kept →
      conn'.rcvseq = conn.rcvseq →
      ∃ len fin, Passed conn seg conn' len fin ∧ (0 < len → seg.seqno = conn.rcvseq) :=
    fun inv kept rcvseq => ⟨0, 0, .nothing inv kept rcvseq, fun h => absurd h (Nat.lt_irrefl 0)⟩
  unfold input
  dsimp only
  split
  · split
    · exact nothing inv rfl rfl
    have inv' : WaitInv (Conn.enter { conn with winsize := seg.wnd } .closed) := inv
    obtain ⟨inv'', kept⟩ := callback_nothing env inv' { abort := true } rfl rfl seg.ackno seg.data
    exact nothing inv'' kept (callback_frame env _ _ _ _).rcvseq
  split
  · exact nothing inv rfl rfl
  next noReset checked =>
  have expected : inSequence conn seg := Decidable.not_not.1 (not_or.1 checked).2
  obtain ⟨txUnacked, sndseq, frame⟩ := acknowledge_frame cfg { conn with winsize := seg.wnd } seg
  have acks := (acknowledge_acked cfg { conn with winsize := seg.wnd } seg).1
  generalize acknowledge cfg { conn with winsize := seg.wnd } seg = after at frame acks
  obtain ⟨conn₁, acked⟩ := after
  dsimp only at frame acks ⊢
  have state : conn₁.state = conn.state := by rw [frame]
  have inv₁ : WaitInv conn₁ := by rwa [frame]
  have inOrder : ∀ {len : ℕ}, len ≤ seg.data.length → (conn.state = .synRcvd → seg.ctl.ack = true) →
      0 < len → seg.seqno = conn.rcvseq := by
    intro len all needsAck positive
    rcases expected with ⟨h, -⟩ | ⟨h, syn⟩ | ⟨none, -⟩ | h
    · rcases receiving with state | state <;> simp [state] at h
    · have ack := needsAck h
      rw [syn] at ack
      cases ack
    · rw [none] at all
      exact absurd positive (Nat.not_lt.2 all)
    · exact h
  rcases receiving with synRcvd | established
  · have closing : conn₁.closing = false := by rw [frame, control (.inl synRcvd)]
    obtain ⟨len, passed, needsAck⟩ := inputSynRcvd_passed cfg inv₁ (state.trans synRcvd) closing
      (by rw [frame]; exact buffers.handshake synRcvd) acked
    refine ⟨len, 0, ?_, fun positive =>
      inOrder passed.all (fun _ => (acks (needsAck positive)).1) positive⟩
    simp only [inputState, state, synRcvd]
    subst frame
    exact { passed with }
  simp only [inputState, state, established]
  have noHandshake : conn.state = .synRcvd → seg.ctl.ack = true := by simp [established]
  split
  · next fin =>
    have passed := inputFin_passed inv₁ fin.1 (by simpa using fin.2)
      (by rw [frame]; exact buffers.fin established fin.1) acked
    subst frame
    exact ⟨_, _, { passed with }, inOrder passed.all noHandshake⟩
  next noFin =>
  obtain ⟨len, passed⟩ := inputData_passed inv₁ (state.trans established)
    (by simpa using noFin) (by rw [frame]; exact buffers.rest established) acked
  subst frame
  exact ⟨_, _, { passed with }, inOrder passed.all noHandshake⟩

/-! ## Other events -/

theorem readahead_flatten (buflen : ℕ) (queue : List (List B)) :
    (readahead buflen queue).1 ++ (readahead buflen queue).2.flatten = queue.flatten := by
  induction queue generalizing buflen with
  | nil => rfl
  | cons chain rest ih =>
    unfold readahead
    split
    · rfl
    split
    · simp [← ih (buflen - chain.length)]
    · simp [← append_assoc]

theorem readahead_nothing (positive : 0 < buflen) {queue : List (List B)}
    (nothing : (readahead buflen queue).1 = []) : (readahead buflen queue).2.flatten = [] := by
  induction queue generalizing buflen with
  | nil => rfl
  | cons chain rest ih =>
    unfold readahead at nothing ⊢
    rw [if_neg (by omega)] at nothing ⊢
    split at nothing
    · next fits =>
      obtain ⟨rfl, nothing⟩ := append_eq_nil_iff.1 nothing
      exact ih positive nothing
    next long =>
    rcases take_eq_nil_iff.1 nothing with zero | empty
    · omega
    · rw [empty] at long
      exact absurd (Nat.zero_le _) long

section

variable (inv : WaitInv conn)
include inv

theorem recvfrom_kept (buflen : ℕ) :
    WaitInv (recvfrom conn buflen) ∧ (recvfrom conn buflen).kept = conn.kept := by
  have split := readahead_flatten buflen conn.readahead
  have kept : conn.received ++ (readahead buflen conn.readahead).1 ++
      (readahead buflen conn.readahead).2.flatten = conn.kept := by
    rw [append_assoc, split, Conn.kept]
  unfold recvfrom
  dsimp only
  split
  · next nothing =>
    refine ⟨fun n h => ?_, kept⟩
    cases h
    exact ⟨nothing.2, readahead_nothing nothing.2 nothing.1⟩
  refine ⟨fun n h => ?_, kept⟩
  obtain ⟨positive, empty⟩ := inv n h
  rw [empty] at split
  exact ⟨positive, (append_eq_nil_iff.1 split).2⟩

theorem poll_kept :
    WaitInv (poll env conn).1 ∧ (poll env conn).1.kept = conn.kept := by
  unfold poll
  split
  · obtain ⟨inv', kept⟩ := callback_nothing env inv { poll := true } rfl rfl 0 []
    have same := appsend_same (callback env conn { poll := true } 0 []).1
      (callback env conn { poll := true } 0 []).2.1 (callback env conn { poll := true } 0 []).2.2
    exact ⟨same.waitInv inv', same.kept.trans kept⟩
  · exact ⟨inv, rfl⟩

theorem timeout_kept :
    WaitInv (timeout cfg env conn).1 ∧ (timeout cfg env conn).1.kept = conn.kept := by
  have inv' : WaitInv (conn.enter .closed) := inv
  have timedOut := callback_nothing env inv' { timedout := true } rfl rfl 0 []
  have later : WaitInv { conn with nrtx := conn.nrtx + 1 } := inv
  unfold timeout
  dsimp only
  split
  · exact timedOut
  split
  · exact ⟨inv, rfl⟩
  split
  · exact ⟨inv, rfl⟩
  split
  · exact timedOut
  split
  case h_3 => exact callback_nothing env later { rexmit := true } rfl rfl 0 []
  all_goals exact ⟨inv, rfl⟩

/-- Events other than a segment move data from the read-ahead queue to the user at most. -/
theorem step_kept {event : Event B}
    (other : ∀ env seg, event ≠ .input env seg) :
    WaitInv (step cfg conn event).1 ∧ (step cfg conn event).1.kept = conn.kept := by
  cases event with
  | input env seg => exact absurd rfl (other env seg)
  | poll env => exact poll_kept inv
  | timeout env => exact timeout_kept inv
  | send data =>
    simp only [step, send]
    split <;> exact ⟨inv, rfl⟩
  | recvfrom buflen => exact recvfrom_kept inv buflen
  | stopWaiting =>
    refine ⟨fun _ h => ?_, rfl⟩
    cases h
  | close => exact ⟨inv, rfl⟩

end

/-! ## Runs -/

/-- The bytes of the peer's stream before a position, without those that were discarded as
urgent. -/
def stream (peer : ℕ → B) (pos : ℕ) (urgent : ℕ → Bool) : List B :=
  ((List.range pos).filter fun i => !urgent i).map peer

/-- Positions from `pos` on are urgent as well. -/
def mark (urgent : ℕ → Bool) (pos len : ℕ) (i : ℕ) : Bool :=
  urgent i || (decide (pos ≤ i) && decide (i < pos + len))

def passedBytes (conn conn' : Conn B) (seg : Segment B) : ℕ :=
  min (conn'.rcvseq - conn.rcvseq).toNat seg.data.length

/-- The connection reached from one in SYN_RCVD or ESTABLISHED, with the number of payload bytes
that `rcvseq` has gone past and which of them were urgent. A segment with the expected number
carries the bytes of the peer's stream there. -/
inductive ReceiveRun (cfg : Config) (peer : ℕ → B) (ok : Env → Conn B → Segment B → Prop) :
    Conn B → ℕ → (ℕ → Bool) → Prop
  | start {conn : Conn B} (reachable : Reachable cfg conn) (received : conn.received = [])
      (readahead : conn.readahead = []) (receiver : conn.receiver = none) :
      ReceiveRun cfg peer ok conn 0 fun _ => false
  | other {conn : Conn B} {pos : ℕ} {urgent : ℕ → Bool}
      (before : ReceiveRun cfg peer ok conn pos urgent) (event : Event B)
      (notInput : ∀ env seg, event ≠ .input env seg) :
      ReceiveRun cfg peer ok (step cfg conn event).1 pos urgent
  | input {conn : Conn B} {pos : ℕ} {urgent : ℕ → Bool}
      (before : ReceiveRun cfg peer ok conn pos urgent) (receiving : Receiving conn) (env : Env)
      (seg : Segment B) (short : seg.data.length < 2 ^ 16)
      (honest : seg.seqno = conn.rcvseq →
        seg.payload = (List.range seg.payload.length).map fun i => peer (pos + i))
      (holds : ok env conn seg) {len : ℕ}
      (passed : passedBytes conn (input cfg env conn seg).1 seg = len) :
      ReceiveRun cfg peer ok (input cfg env conn seg).1 (pos + len)
        (mark urgent pos (min (discarded conn seg) len))

variable {peer : ℕ → B} {pos : ℕ} {urgent : ℕ → Bool}

theorem ReceiveRun.reachable {ok : Env → Conn B → Segment B → Prop}
    (run : ReceiveRun cfg peer ok conn pos urgent) : Reachable cfg conn := by
  induction run with
  | start reachable => exact reachable
  | other before event notInput ih => exact ih.step event
  | input before receiving env seg short honest holds passed ih => exact ih.step (.input env seg)

theorem filter_range_drop (le : skip ≤ len) :
    (List.range len).filter (fun i => !decide (i < skip)) = (List.range len).drop skip := by
  obtain ⟨rest, rfl⟩ := Nat.exists_eq_add_of_le le
  rw [range_add, filter_append, drop_left' length_range]
  have first : (List.range skip).filter (fun i => !decide (i < skip)) = [] := by
    simp
  have second : ((List.range rest).map (skip + ·)).filter (fun i => !decide (i < skip)) =
      (List.range rest).map (skip + ·) := by
    simp
  rw [first, second, nil_append]

theorem stream_add (later : ∀ i, pos ≤ i → urgent i = false) (le : skip ≤ len) :
    stream peer (pos + len) (mark urgent pos skip) =
      stream peer pos urgent ++ ((List.range len).map fun i => peer (pos + i)).drop skip := by
  have old : (List.range pos).filter (fun i => !mark urgent pos skip i) =
      (List.range pos).filter fun i => !urgent i := by
    apply filter_congr
    intro i mem
    have : ¬ pos ≤ i := Nat.not_le.2 (mem_range.1 mem)
    simp [mark, this]
  have new : ((List.range len).map (pos + ·)).filter (fun i => !mark urgent pos skip i) =
      ((List.range len).drop skip).map (pos + ·) := by
    rw [filter_map, ← filter_range_drop le]
    congr 1
    apply filter_congr
    intro i mem
    simp [mark, later (pos + i) (Nat.le_add_right pos i)]
  rw [stream, range_add, filter_append, old, new, map_append, stream, map_map, ← map_drop]
  rfl

theorem Passed.bytes (passed : Passed conn seg conn' len fin) (short : seg.data.length < 2 ^ 16) :
    passedBytes conn conn' seg = len := by
  have all := passed.all
  have count : (conn'.rcvseq - conn.rcvseq).toNat = len + fin := by
    rw [passed.rcvseq]
    rcases passed.last with rfl | ⟨rfl, -⟩
    · bv_omega
    · bv_omega
  rw [passedBytes, count]
  rcases passed.last with rfl | ⟨rfl, h⟩ <;> omega

/-- The handshake with a peer whose first byte has the number 5001. -/
def peerConnected : Conn ℕ :=
  (input buffered ⟨true, true⟩ (allocAccept 1000 5000 536) (pureAck 1001)).1

/-- The last three bytes of the peer, with its FIN. -/
def lastBytes : Segment ℕ where
  ctl := { ack := true, fin := true }
  seqno := 5001
  ackno := 1001
  wnd := 1000
  urgp := 0
  mss := none
  options := []
  payload := [0, 1, 2]

theorem peerConnected_run {ok : Env → Conn ℕ → Segment ℕ → Prop} (env : Env) (seg : Segment ℕ)
    (bytes : seg.payload = [0, 1, 2]) (short : seg.data.length < 2 ^ 16)
    (holds : ok env peerConnected seg)
    (passed : passedBytes peerConnected (input buffered env peerConnected seg).1 seg = 3) :
    ReceiveRun buffered id ok (input buffered env peerConnected seg).1 (0 + 3)
      (mark (fun _ => false) 0 (min (discarded peerConnected seg) 3)) := by
  have reachable : Reachable buffered peerConnected :=
    (Reachable.accept 1000 5000 536).step (.input ⟨true, true⟩ (pureAck 1001))
  refine .input (.start reachable rfl rfl rfl) (.inr (by decide)) env seg short (fun _ => ?_) holds
    passed
  rw [bytes]
  rfl

end NuttxRtos.Tcp
